import DocPath.Cli.Run

/-!
# The program

Reads what a command names, lets the command work out its answer, and writes that.  Everything that
can be decided without reading or writing is decided elsewhere.
-/

namespace DocPath.Cli

/-- The environment variable that holds the log filter. -/
def filterVariable : String := "RUST_LOG"

/-- What bytes hold. -/
def contentOf (bytes : ByteArray) : Content :=
  match String.fromUTF8? bytes with
  | some text => .ok text
  | none => .error .notText

/-- Whether a code is that of an operating system error; some calls negate it. -/
def isCode (number code : UInt32) : Bool := code = number || code = 0 - number

/-- The fault that an error of the file system stands for. -/
def faultOf : IO.Error → FileFault
  | .noFileOrDirectory .. => .missing
  | .inappropriateType _ code details =>
    if isCode 20 code then .notDirectory
    else if isCode 21 code then .isDirectory
    else .other details
  | .invalidArgument _ code details => if isCode 36 code then .nameTooLong else .other details
  | e => .other (toString e)

/-- Reads a source. -/
def readSource : Source → IO Content
  | .nothing => pure (.ok "")
  | .file name => do
    try
      return contentOf (← IO.FS.readBinFile name)
    catch e => return .error (faultOf e)
  | .standardInput => do return contentOf (← (← IO.getStdin).readBinToEnd)

/-- Writes a text to a file, or to the standard output. -/
def writeTarget (target? : Option String) (text : String) : IO (Option Report) := do
  match target? with
  | none =>
    IO.print text
    return none
  | some name =>
    try
      IO.FS.writeFile name text
      return none
    catch e => return some (writeReport name (faultOf e))

/-- The line that logs an event. -/
def logLine (e : Event) : String :=
  String.join ([e.level.name, " ", e.topic, ": ", e.message] ++ e.fields.map fun field =>
    " " ++ field.1 ++ "=" ++ field.2)

/-- Says why a command failed. -/
def fail (report : Report) : IO UInt32 := do
  IO.eprint report.text
  return 1

/-- Runs a command. -/
def runCommand (command : Command) (filter : LogFilter) : IO UInt32 := do
  let done := command.respond (← readSource command.source)
  for e in done.2 do
    if filter.admits e then IO.eprintln (logLine e)
  match done.1 with
  | .error report => fail report
  | .ok response =>
    match ← writeTarget response.target? response.text with
    | some report => fail report
    | none => return 0

end DocPath.Cli

open DocPath.Cli in
/-- Runs the command line. -/
def main (args : List String) : IO UInt32 := do
  match Request.ofArgs 0 args with
  | .version =>
    IO.print versionText
    return 0
  | .misuse =>
    IO.eprintln "error: the command line is not understood"
    return 2
  | .run command verbosity =>
    runCommand command (.ofEnvironment (← IO.getEnv filterVariable) verbosity)
