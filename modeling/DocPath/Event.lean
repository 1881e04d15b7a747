import DocPath.Path.Read
import DocPath.Tree.Basic

/-!
# Events

What reading a path and walking along it report on the way.  An event is a value; its level, its
topic, its message and its fields are functions of it.
-/

namespace DocPath

/-- The two levels of events, coarse and fine. -/
inductive Level where
  | debug
  | trace
deriving DecidableEq, Repr

/-- The word for a level. -/
def Level.name : Level → String
  | debug => "DEBUG"
  | trace => "TRACE"

/-- Something worth reporting. -/
inductive Event where
  /-- A lenient reader of `path` passes over the text after the last group of a part. -/
  | trailingDropped (path text : String)
  /-- A lenient reader of `path` passes over a `[` without `]` and the rest of its part. -/
  | unclosedDropped (path rest : String)
  /-- A lenient reader of `path` passes over a group that is neither `*` nor an index. -/
  | groupDropped (path content : String)
  /-- A look-up begins. -/
  | getStarted (path : Path)
  /-- A look-up takes a step from a node of this kind. -/
  | getStep (segment : Segment) (node : Kind)
  /-- An assignment begins. -/
  | setStarted (path : Path)
  /-- An assignment takes a step from a node of this kind towards its target. -/
  | setStep (segment : Segment) (node : Kind)
  /-- An assignment along `path` meets a name that is not there and makes an object for it. -/
  | objectCreated (path : Path) (key : String)
  /-- An assignment arrives at the node, of this kind, that is to hold the new value. -/
  | assigning (segment : Segment) (node : Kind)
  /-- A value is taken as a string because it is not a JSON text. -/
  | valueTakenAsText (value problem : String)
deriving DecidableEq, Repr

namespace Event

/-- The level of an event: single steps are fine, all else is coarse. -/
def level : Event → Level
  | getStep .. => .trace
  | setStep .. => .trace
  | assigning .. => .trace
  | _ => .debug

/-- The part of the program that an event comes from, by the name it has in logs. -/
def topic : Event → String
  | trailingDropped .. => "treepath_core::path"
  | unclosedDropped .. => "treepath_core::path"
  | groupDropped .. => "treepath_core::path"
  | getStarted .. => "treepath_core::get"
  | getStep .. => "treepath_core::get"
  | setStarted .. => "treepath_core::set"
  | setStep .. => "treepath_core::set"
  | objectCreated .. => "treepath_core::set"
  | assigning .. => "treepath_core::set"
  | valueTakenAsText .. => "treepath"

/-- What happened. -/
def message : Event → String
  | trailingDropped .. => "dropping trailing text after bracket group"
  | unclosedDropped .. => "unclosed bracket, ignoring remainder of segment"
  | groupDropped .. => "dropping unrecognized bracket content"
  | getStarted .. => "get"
  | getStep .. => "get step"
  | setStarted .. => "set"
  | setStep .. => "set step"
  | objectCreated .. => "creating intermediate object"
  | assigning .. => "set assign"
  | valueTakenAsText .. => "value is not JSON, using it as a string"

/-- What it happened to. -/
def fields : Event → Fields String
  | trailingDropped path text => [("path", path), ("trailing", text)]
  | unclosedDropped path rest => [("path", path), ("rest", rest)]
  | groupDropped path content => [("path", path), ("content", content)]
  | getStarted path => walk path
  | getStep segment node => step segment node
  | setStarted path => walk path
  | setStep segment node => step segment node
  | objectCreated path key => [("path", path.print), ("key", key)]
  | assigning segment node => step segment node
  | valueTakenAsText value problem => [("value", value), ("error", problem)]
where
  /-- A path as a whole. -/
  walk (path : Path) : Fields String :=
    [("path", path.print), ("segments", String.ofList (Text.natDigits path.length))]
  /-- One step and where it starts. -/
  step (segment : Segment) (node : Kind) : Fields String :=
    [("segment", segment.print), ("at", node.name)]

end Event

/-! ## What lenient reading drops -/

/-- The report on a piece that a lenient reader of `path` passes over.  Text between two groups is
passed over without a report, and so is a part without text. -/
def Piece.dropped? (path : String) : Piece → Option Event
  | trailing text => some (.trailingDropped path (String.ofList text))
  | unclosed rest => some (.unclosedDropped path (String.ofList ('[' :: rest)))
  | group content =>
    if (Segment.ofGroup? content).isSome then none
    else some (.groupDropped path (String.ofList content))
  | _ => none

/-- The reports of reading a path: the strict reader makes none. -/
def Path.readEvents (reading : Reading) (text : String) : List Event :=
  match reading with
  | .lenient => (Piece.ofText text.toList).filterMap (Piece.dropped? text)
  | .strict => []

end DocPath
