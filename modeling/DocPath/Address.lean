import DocPath.Failure
import DocPath.Tree.Assignment
import DocPath.Tree.Lookup

/-!
# Addresses

An address is a path together with the text that failures name it by.  A path that is given as a
text, and is not read beforehand, is named by that text; any other path is named by its canonical
text.
-/

namespace DocPath

/-- A path and the text that names it. -/
structure Address where
  path : Path
  name : String
deriving DecidableEq, Repr

namespace Address

/-- The address of a text that is read leniently. -/
def ofText (text : String) : Address := ⟨Path.ofText text, text⟩

/-- The address of a path. -/
def ofPath (p : Path) : Address := ⟨p, p.print⟩

end Address

/-- What a path is given as. -/
inductive PathSource where
  /-- A text that is used as it is. -/
  | text (text : String)
  /-- A text that is read beforehand. -/
  | read (reading : Reading) (text : String)
  /-- Segments. -/
  | segments (p : Path)
deriving DecidableEq, Repr

namespace PathSource

/-- The address that is meant. -/
def address? : PathSource → Except Failure Address
  | text s => .ok (.ofText s)
  | read reading s =>
    match Path.read reading s with
    | .ok p => .ok (.ofPath p)
    | .error fault => .error (.path s fault)
  | segments p => .ok (.ofPath p)

/-- The reports of reading the path. -/
def events : PathSource → List Event
  | text s => Path.readEvents .lenient s
  | read reading s => Path.readEvents reading s
  | segments _ => []

end PathSource

/-! ## Walking to an address -/

namespace Tree

variable {ν : Type}

/-- The node at an address. -/
def getAt (t : Tree ν) (a : Address) : Except Failure (Tree ν) :=
  match t.get a.path with
  | .ok u => .ok u
  | .error fault => .error (.walk a.name fault)

/-- The walk along the path decides what is found, and the name only enters a failure. -/
theorem getAt_eq_mapError (t : Tree ν) (a : Address) :
    t.getAt a = (t.get a.path).mapError (.walk a.name) := by
  rw [getAt]
  cases t.get a.path <;> rfl

/-- Assigns `v` at an address: the tree after it, and the failure if there is one. -/
def setAt (t : Tree ν) (a : Address) (v : Tree ν) : Tree ν × Option Failure :=
  let done := t.set a.path v
  (done.tree, done.fault?.map (.walk a.name))

/-- The node that a path leads to, however the path is given, and what is reported on the way. -/
def getFrom (t : Tree ν) (source : PathSource) : Except Failure (Tree ν) × List Event :=
  match source.address? with
  | .ok a => (t.getAt a, source.events ++ t.getEvents a.path)
  | .error failure => (.error failure, source.events)

/-- Assigns `v` where a path leads, however the path is given, and says what is reported on the
way. -/
def setFrom (t : Tree ν) (source : PathSource) (v : Tree ν) :
    (Tree ν × Option Failure) × List Event :=
  match source.address? with
  | .ok a => (t.setAt a v, source.events ++ t.setEvents a.path)
  | .error failure => ((t, some failure), source.events)

end Tree

end DocPath
