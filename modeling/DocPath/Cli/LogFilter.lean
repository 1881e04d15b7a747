import DocPath.Event
import DocPath.Text.Alphanumeric
import DocPath.Text.Blank

/-!
# Log filters

A log filter says which events are logged.  It is a text of directives with commas between them, and
a directive is a level, the beginning of a topic, or both, as in `warn,treepath_core::get=trace`.
Behind the topic, brackets may name a span of work and braces in them a field of it, as in
`treepath_core[lookup{key}]=debug`.  No event of this program lies in a span, so a directive with
the name of a span or the value of a field concerns no event; one with the bare name of a field
concerns the events that have the field.

Of the directives that concern an event the most specific one decides: the one with the longest
beginning of a topic, among those the one with a field, and of two alike the later.  An event that
no directive concerns is not logged.

A text in which any directive is malformed is no filter at all.
-/

namespace DocPath.Cli

/-! ## 1. Directives -/

/-- What is logged of the events that a directive concerns. -/
structure Directive where
  /-- How the topic of the events begins; without it they may have any topic. -/
  topic? : Option String
  /-- A field that the events have. -/
  field? : Option String
  /-- The finest level that is logged; none if not even the coarse one is. -/
  level? : Option Level
deriving DecidableEq, Repr

namespace Directive

/-- The directive on all events. -/
def general (level? : Option Level) : Directive := ⟨none, none, level?⟩

/-- Whether a directive concerns an event.  The message counts as a field. -/
def concerns (e : Event) (d : Directive) : Bool :=
  d.topic?.all (fun topic => topic.toList.isPrefixOf e.topic.toList) &&
    d.field?.all (fun field => ("message" :: Fields.keys e.fields).contains field)

/-- How much of a topic a directive names; least if it names none. -/
def reach (d : Directive) : Nat := d.topic?.elim 0 fun topic => topic.length + 1

/-- Whether a later directive on the same event is at least as specific.  Between fields the order
of their names decides. -/
def replaces (later earlier : Directive) : Bool :=
  if later.reach = earlier.reach then
    match earlier.field?, later.field? with
    | none, _ => true
    | some _, none => false
    | some old, some new => old ≤ new
  else earlier.reach < later.reach

end Directive

/-! ## 2. What is logged -/

/-- The directives, in order. -/
abbrev LogFilter := List Directive

/-- Whether a level is logged where this is the finest one that is. -/
def Level.admits (finest l : Level) : Bool := finest = .trace || l = .debug

namespace LogFilter

/-- The directive that decides on an event. -/
def deciding? (filter : LogFilter) (e : Event) : Option Directive :=
  (filter.filter (Directive.concerns e)).foldl
    (fun best? d => if best?.all d.replaces then some d else best?) none

/-- Whether an event is logged. -/
def admits (filter : LogFilter) (e : Event) : Bool :=
  match (filter.deciding? e).bind (·.level?) with
  | some finest => Level.admits finest e.level
  | none => false

/-- The filter for `--verbose` given so many times: it logs nothing, the coarse level, or all. -/
def ofVerbosity (times : Nat) : LogFilter :=
  [.general (if times = 0 then none else if times = 1 then some .debug else some .trace)]

end LogFilter

/-! ## 3. Reading filters -/

/-- The finest level that is logged under a threshold: a name of one in any case, or its number from
0 for nothing to 5 for everything.  Thresholds that are coarser than `debug` all log nothing. -/
def readThreshold? (word : List Char) : Option (Option Level) :=
  let name := (String.ofList word).toLower
  let number? := Text.readNat? (if word.head? = some '+' then word.drop 1 else word)
  if name = "trace" ∨ number? = some 5 then some (some .trace)
  else if name = "debug" ∨ number? = some 4 then some (some .debug)
  else if ["off", "error", "warn", "info"].contains name ∨ number?.any (· ≤ 3) then some none
  else none

/-- The finest level that is logged under a threshold that may be left out for everything. -/
def readThresholdOrAll? (word : List Char) : Option (Option Level) :=
  if word = [] then some (some .trace) else readThreshold? word

namespace Directive

/-- A character of a directive twice over.  The first is looked at for the marks between names, the
second is what it adds to the name it lies in.

The two differ where a directive begins with blanks: marks are looked for in the text without the
blanks at its ends, but names are cut at the same offsets out of the text as it stands. -/
abbrev Cell := Char × Char

/-- What cells add to the name they lie in. -/
def letters (cells : List Cell) : List Char := cells.map Prod.snd

/-- Reads what follows the brackets of a directive.  The characters of `tail` come after all cells
and belong to the last name. -/
def readLevel? (tail : List Char) : List Cell → Option (Option Level)
  | [] => some (some .trace)
  | (mark, _) :: rest =>
    if mark = '=' then readThresholdOrAll? (letters rest ++ tail) else none

/-- Reads what follows the `[` of a directive.  A directive that is well-formed but concerns no
event is nothing. -/
def readSpan? (topic? : Option String) (tail : List Char) (cells : List Cell) :
    Option (Option Directive) :=
  let name := cells.takeWhile fun cell => cell.1 ≠ ']' && cell.1 ≠ '{'
  match cells.drop name.length with
  | [] => none
  | (mark, _) :: rest =>
    if mark = ']' then (readLevel? tail rest).map fun _ => none
    else
      let field := letters (rest.takeWhile (·.1 ≠ '}'))
      match rest.drop field.length with
      | _ :: (close, _) :: rest =>
        if field = [] ∨ close ≠ ']' then none
        else
          (readLevel? tail rest).map fun level? =>
            if name ≠ [] ∨ '=' ∈ field then none
            else some ⟨topic?, some (String.ofList field), level?⟩
      | _ => none

/-- Whether a directive may begin with a character. -/
def mayBegin (c : Char) : Bool := ['-', ':', '_'].contains c || Text.isAlphanumeric c

/-- Reads a directive.  A name alone is a threshold if it can be one, and a topic otherwise. -/
def ofChars? (cs : List Char) : Option (Option Directive) :=
  let marks := Text.trim cs
  let tail := cs.drop marks.length
  match marks.zip cs with
  | [] => none
  | (mark, letter) :: rest =>
    if mark = '[' then readSpan? none tail rest
    else if mayBegin mark then
      let more := letters (rest.takeWhile fun cell => cell.1 ≠ '=' && cell.1 ≠ '[')
      let name := letter :: more
      match rest.drop more.length with
      | [] =>
        match readThreshold? (name ++ tail) with
        | some level? => some (some (general level?))
        | none => some (some ⟨some (String.ofList (name ++ tail)), none, some .trace⟩)
      | (mark, _) :: rest =>
        let topic := String.ofList name
        if mark = '[' then readSpan? (some topic) tail rest
        else
          (readThresholdOrAll? (letters rest ++ tail)).map fun level? =>
            some ⟨some topic, none, level?⟩
    else none

end Directive

namespace LogFilter

/-- Reads a filter.  Nothing between two commas is no directive. -/
def ofText? (text : String) : Option LogFilter :=
  let texts := (text.toList.splitOn ',').filter (· ≠ [])
  (texts.mapM Directive.ofChars?).map fun said => said.filterMap id

/-- The filter of a run: what the environment asks for if that is a filter, and otherwise the one
for `--verbose` given so many times. -/
def ofEnvironment (environment? : Option String) (verbosity : Nat) : LogFilter :=
  (environment?.bind ofText?).getD (ofVerbosity verbosity)

end LogFilter

end DocPath.Cli
