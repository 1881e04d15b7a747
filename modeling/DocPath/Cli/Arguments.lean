import DocPath.Json.Writer
import DocPath.Path.Read

/-!
# Command lines

A command line is a verb, the words it applies to, and options.  Before the verb stand only
`--verbose`, which may be repeated, and `--version`, which ends the reading; after it words and
options mix, and behind `--` there are only words.

The arguments after the verb are read one at a time into a record of what was given so far
(`Given`), which knows if an option waits for its value.  Everything but `--verbose` may be given
once.  An argument that begins with `-` is an option unless it is `-` itself, with one exception:
where the next word that is due is the value to assign, a negative number is a word.
-/

namespace DocPath.Cli

/-! ## 1. What a command line asks for -/

/-- The commands. -/
inductive Command where
  /-- Shows the node at a path. -/
  | get (path : String) (reading : Reading) (input? : Option String) (layout : Json.Layout)
  /-- Assigns a value at a path; a raw value is a string whatever it looks like. -/
  | set (path value : String) (reading : Reading) (raw : Bool) (input? output? : Option String)
      (layout : Json.Layout)
  /-- Shows the segments of a path. -/
  | parse (path : String) (reading : Reading)
deriving DecidableEq, Repr

/-- What a command line means. -/
inductive Request where
  /-- The version is to be shown. -/
  | version
  /-- A command is to be run, with `--verbose` given so many times. -/
  | run (command : Command) (verbosity : Nat)
  /-- The command line is not understood. -/
  | misuse
deriving DecidableEq, Repr

/-! ## 2. Negative numbers -/

/-- The characters of a negative number after its `-`: digits, a point that is neither first nor in
the exponent, and an exponent mark that is neither first nor last.  `start` says that nothing came
before, `point` and `mark` that a point or a mark did. -/
def isNumberFrom (start point mark : Bool) : List Char → Bool
  | [] => true
  | c :: cs =>
    if c.isDigit then isNumberFrom false point mark cs
    else if c = '.' then !start && !point && !mark && isNumberFrom false true mark cs
    else if c = 'e' ∨ c = 'E' then
      !start && !mark && !cs.isEmpty && isNumberFrom false point true cs
    else false

/-! ## 3. Options -/

/-- The verbs. -/
inductive Verb where
  | get
  | set
  | parse
deriving DecidableEq, Repr

/-- The options that are followed by a file name. -/
inductive FileOption where
  | input
  | output
deriving DecidableEq, Repr

/-- The options that stand alone. -/
inductive Flag where
  | compact
  | strict
  | raw
  | verbose
deriving DecidableEq, Repr

namespace Verb

/-- The verb of a name. -/
def ofName? (name : String) : Option Verb :=
  if name = "get" then some get
  else if name = "set" then some set
  else if name = "parse" then some parse
  else none

/-- How many words a verb applies to. -/
def arity : Verb → Nat
  | get => 1
  | set => 2
  | parse => 1

/-- The file options of a verb. -/
def fileOptions : Verb → List FileOption
  | get => [.input]
  | set => [.input, .output]
  | parse => []

/-- The flags of a verb. -/
def flags : Verb → List Flag
  | get => [.compact, .strict, .verbose]
  | set => [.compact, .strict, .raw, .verbose]
  | parse => [.strict, .verbose]

end Verb

/-- The long name of a file option. -/
def FileOption.name : FileOption → List Char
  | input => "input".toList
  | output => "output".toList

/-- The letter of a file option. -/
def FileOption.letter : FileOption → Char
  | input => 'i'
  | output => 'o'

/-- The long name of a flag. -/
def Flag.name : Flag → List Char
  | compact => "compact".toList
  | strict => "strict".toList
  | raw => "raw".toList
  | verbose => "verbose".toList

/-! ## 4. Arguments after the verb -/

/-- What was given so far. -/
structure Given where
  /-- The words, in order. -/
  words : List String := []
  input? : Option String := none
  output? : Option String := none
  compact : Bool := false
  strict : Bool := false
  raw : Bool := false
  /-- How many times `--verbose` was given. -/
  verbosity : Nat := 0
  /-- The option whose value comes next. -/
  waiting? : Option FileOption := none
  /-- Only words are left. -/
  wordsOnly : Bool := false

namespace Given

/-- Takes a word, if one is still due. -/
def takeWord (verb : Verb) (word : String) (g : Given) : Option Given :=
  if g.words.length < verb.arity then some { g with words := g.words ++ [word] } else none

/-- Takes the value of a file option, if it has none yet. -/
def takeFile (o : FileOption) (file : String) (g : Given) : Option Given :=
  match o with
  | .input =>
    if g.input?.isNone then some { g with input? := some file, waiting? := none } else none
  | .output =>
    if g.output?.isNone then some { g with output? := some file, waiting? := none } else none

/-- Takes a flag, if it may be given again. -/
def takeFlag (f : Flag) (g : Given) : Option Given :=
  match f with
  | .compact => if g.compact then none else some { g with compact := true }
  | .strict => if g.strict then none else some { g with strict := true }
  | .raw => if g.raw then none else some { g with raw := true }
  | .verbose => some { g with verbosity := g.verbosity + 1 }

/-- Takes what is a word by its look: the value of the option that waits for one, or a word. -/
def takePlain (verb : Verb) (word : String) (g : Given) : Option Given :=
  match g.waiting? with
  | some o => g.takeFile o word
  | none => g.takeWord verb word

/-- Whether the next word that is due is the value to assign. -/
def valueDue (verb : Verb) (g : Given) : Bool := verb = .set && g.words.length == 1

/-- Takes an option by its long name, with the value after `=` if there is one. -/
def takeLong (verb : Verb) (name : List Char) (value? : Option String) (g : Given) :
    Option Given :=
  match verb.flags.find? (·.name = name) with
  | some f => if value?.isSome then none else g.takeFlag f
  | none =>
    match verb.fileOptions.find? (·.name = name) with
    | some o =>
      match value? with
      | some file => g.takeFile o file
      | none => some { g with waiting? := some o }
    | none => none

/-- Takes options by their letters.  What follows the letter of a file option is its value, behind
an `=` or at once. -/
def takeLetters (verb : Verb) (g : Given) : List Char → Option Given
  | [] => some g
  | c :: cs =>
    if c = 'v' then (g.takeFlag .verbose).bind fun g => takeLetters verb g cs
    else
      match verb.fileOptions.find? (·.letter = c) with
      | some o =>
        match cs with
        | [] => some { g with waiting? := some o }
        | d :: ds => g.takeFile o (String.ofList (if d = '=' then ds else d :: ds))
      | none => none

/-- Takes an argument that begins with `-` and is longer than that: `rest` comes after the `-`. -/
def takeOption (verb : Verb) (rest : List Char) (g : Given) : Option Given :=
  if g.waiting?.isSome then none
  else
    match rest with
    | ['-'] => some { g with wordsOnly := true }
    | '-' :: long =>
      match Text.cut? '=' long with
      | some (name, value) => g.takeLong verb name (some (String.ofList value))
      | none => g.takeLong verb long none
    | letters => g.takeLetters verb letters

/-- Takes the next argument. -/
def take (verb : Verb) (g : Given) (arg : String) : Option Given :=
  if g.wordsOnly then g.takeWord verb arg
  else
    match arg.toList with
    | '-' :: c :: cs =>
      if g.valueDue verb ∧ isNumberFrom true false false (c :: cs) then g.takePlain verb arg
      else g.takeOption verb (c :: cs)
    | _ => g.takePlain verb arg

/-- The way of reading paths that was asked for. -/
def reading (g : Given) : Reading := if g.strict then .strict else .lenient

/-- The layout that was asked for. -/
def layout (g : Given) : Json.Layout := if g.compact then .compact else .indented

/-- The command that was given, if nothing is missing. -/
def command? (verb : Verb) (g : Given) : Option Command :=
  if g.waiting?.isSome then none
  else
    match verb, g.words with
    | .get, [path] => some (.get path g.reading g.input? g.layout)
    | .set, [path, value] => some (.set path value g.reading g.raw g.input? g.output? g.layout)
    | .parse, [path] => some (.parse path g.reading)
    | _, _ => none

end Given

/-! ## 5. Whole command lines -/

/-- Reads the arguments after a verb, with `--verbose` given so many times before it. -/
def Request.ofVerb (verb : Verb) (verbosity : Nat) (args : List String) : Request :=
  match args.foldlM (Given.take verb) { verbosity := verbosity } with
  | none => .misuse
  | some g =>
    match g.command? verb with
    | some command => .run command g.verbosity
    | none => .misuse

/-- What letters before the verb amount to: the count of `v` after `verbosity` if there are no
others, and otherwise what the first other letter means. -/
def countLetters (verbosity : Nat) : List Char → Except Request Nat
  | [] => .ok verbosity
  | c :: cs =>
    if c = 'v' then countLetters (verbosity + 1) cs
    else .error (if c = 'V' then .version else .misuse)

/-- Reads a command line, with `--verbose` given so many times already. -/
def Request.ofArgs (verbosity : Nat) : List String → Request
  | [] => .misuse
  | arg :: args =>
    match arg.toList with
    | '-' :: c :: cs =>
      if arg = "--verbose" then ofArgs (verbosity + 1) args
      else if arg = "--version" then .version
      else
        match countLetters verbosity (c :: cs) with
        | .ok n => ofArgs n args
        | .error request => request
    | _ =>
      match Verb.ofName? arg with
      | some verb => ofVerb verb verbosity args
      | none => .misuse

end DocPath.Cli
