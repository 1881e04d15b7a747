import DocPath.Address
import DocPath.Cli.Arguments
import DocPath.Cli.LogFilter
import DocPath.Cli.Report
import DocPath.Json.Text

/-!
# Running commands

A command reads one text, from a file or from the standard input, and makes one text, for a file or
for the standard output.  `Command.respond` is all that lies between; `run` adds the reading and the
writing, with the standard input and the files as values.

Nothing is written before all that can fail has been done, apart from the writing itself.  Events
are another matter: what happened before a failure is logged as it would have been without it.
-/

namespace DocPath.Cli

/-! ## 1. From the text read to the text made -/

/-- What a command makes. -/
structure Response where
  /-- The file for the text; none for the standard output. -/
  target? : Option String
  text : String

/-- Whether a command reads a text, and from where: a file, or the standard input. -/
inductive Source where
  | nothing
  | file (name : String)
  | standardInput
deriving DecidableEq, Repr

/-- The line that shows a segment. -/
def segmentLine : Segment → String
  | .key name => "key " ++ name ++ "\n"
  | .index place => "index " ++ String.ofList (Text.intDigits place.toInt) ++ "\n"
  | .wildcard => "wildcard\n"

/-- The lines that show the segments of a path. -/
def pathLines (p : Path) : String := String.join (p.map segmentLine)

/-- The value that is meant by a word: the document it describes, or else, and always if it is raw,
the string it is. -/
def valueOf (word : String) (raw : Bool) : Document × List Event :=
  if raw then (.string word, [])
  else
    match Document.ofText? word with
    | .ok d => (d, [])
    | .error fault => (.string word, [.valueTakenAsText word (Failure.json fault).message])

namespace Command

/-- Where a command reads from. -/
def source : Command → Source
  | get _ _ input? _ => input?.elim .standardInput .file
  | set _ _ _ _ input? _ _ => input?.elim .standardInput .file
  | parse _ _ => .nothing

end Command

/-- The path that a command is given. -/
def readPath (reading : Reading) (text : String) : Except Report Path :=
  match Path.read reading text with
  | .ok p => .ok p
  | .error fault =>
    .error ⟨"Invalid path: '" ++ text ++ "'", Report.causesOf (.path text fault)⟩

/-- The document that a command is given. -/
def readDocument (source : Source) (content : Content) : Except Report Document :=
  match content with
  | .error fault =>
    let doing :=
      match source with
      | .file name => "Failed to read file: " ++ name
      | _ => "Failed to read from stdin"
    .error ⟨doing, [fault.message]⟩
  | .ok text =>
    match Document.ofText? text with
    | .ok d => .ok d
    | .error fault => .error ⟨"Failed to decode input JSON", Report.causesOf (.json fault)⟩

namespace Command

/-- What a command makes of the text that its source holds, or why it makes nothing, and the events
up to there. -/
def respond (command : Command) (content : Content) : Except Report Response × List Event :=
  match command with
  | get path reading input? layout =>
    match readPath reading path with
    | .error report => (.error report, Path.readEvents reading path)
    | .ok p =>
      match readDocument (get path reading input? layout).source content with
      | .error report => (.error report, Path.readEvents reading path)
      | .ok d =>
        let events := Path.readEvents reading path ++ d.getEvents p
        match d.getAt (.ofPath p) with
        | .error failure =>
          (.error ⟨"Failed to get '" ++ path ++ "'", Report.causesOf failure⟩, events)
        | .ok found => (.ok ⟨none, Document.text layout found ++ "\n"⟩, events)
  | set path value reading raw input? output? layout =>
    match readPath reading path with
    | .error report => (.error report, Path.readEvents reading path)
    | .ok p =>
      match readDocument (set path value reading raw input? output? layout).source content with
      | .error report => (.error report, Path.readEvents reading path)
      | .ok d =>
        let meant := valueOf value raw
        let events := Path.readEvents reading path ++ meant.2 ++ d.setEvents p
        match d.setAt (.ofPath p) meant.1 with
        | (_, some failure) =>
          (.error ⟨"Failed to set '" ++ path ++ "'", Report.causesOf failure⟩, events)
        | (changed, none) => (.ok ⟨output?, Document.text layout changed ++ "\n"⟩, events)
  | parse path reading =>
    match readPath reading path with
    | .error report => (.error report, Path.readEvents reading path)
    | .ok p => (.ok ⟨none, pathLines p⟩, Path.readEvents reading path)

end Command

/-- The report on a file that cannot be written. -/
def writeReport (name : String) (fault : FileFault) : Report :=
  ⟨"Failed to write file: " ++ name, [fault.message]⟩

/-! ## 2. Whole runs -/

/-- The text that shows the version. -/
def versionText : String := "treepath 0.1.0\n"

/-- What a run leaves behind. -/
structure Outcome where
  /-- Zero for success, one for a failure, two for a command line that is not understood. -/
  code : Nat
  stdout : String
  files : Files
  /-- The report on a failure. -/
  report? : Option Report := none
  /-- The events that are logged. -/
  logged : List Event := []

/-- The content that a source holds. -/
def Source.content (stdin : Content) (files : Files) : Source → Content
  | nothing => .ok ""
  | file name => files.read name
  | standardInput => stdin

/-- Runs a command. -/
def Command.run (stdin : Content) (files : Files) (filter : LogFilter) (command : Command) :
    Outcome :=
  let done := command.respond (command.source.content stdin files)
  let logged := done.2.filter filter.admits
  match done.1 with
  | .error report => { code := 1, stdout := "", files, report? := some report, logged }
  | .ok response =>
    match response.target? with
    | none => { code := 0, stdout := response.text, files, logged }
    | some name =>
      match files.write name response.text with
      | .ok files => { code := 0, stdout := "", files, logged }
      | .error fault =>
        { code := 1, stdout := "", files, report? := some (writeReport name fault), logged }

/-- Runs a command line. -/
def run (args : List String) (stdin : Content) (files : Files) (environment? : Option String) :
    Outcome :=
  match Request.ofArgs 0 args with
  | .version => { code := 0, stdout := versionText, files }
  | .misuse => { code := 2, stdout := "", files }
  | .run command verbosity => command.run stdin files (.ofEnvironment environment? verbosity)

end DocPath.Cli
