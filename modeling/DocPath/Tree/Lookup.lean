import DocPath.Event
import DocPath.Tree.Fault

/-!
# Looking up a node

A look-up walks from the root along the segments of a path.  A key that an object lacks leads to
null, and from null every key leads to null; an index has to name an element.  A wildcard ends the
walk at the array it is applied to, whatever follows it.

`Tree.child` is one step, `Tree.get` the walk, and `Tree.getEvents` what the walk reports: its
beginning and every step it tries.
-/

namespace DocPath.Tree

variable {ν : Type}

/-- The node that one segment leads to.  A wildcard leads to the array itself. -/
def child (s : Segment) (t : Tree ν) : Except Fault (Tree ν) :=
  match s, t with
  | .key name, object fields => .ok ((Fields.get? name fields).getD null)
  | .key _, null => .ok null
  | .key _, t => .error (.notObject t.kind)
  | .index place, array items =>
    match element? items place with
    | some t => .ok t
    | none => .error (.outOfRange place items.length)
  | .index _, t => .error (.notArray t.kind)
  | .wildcard, array items => .ok (array items)
  | .wildcard, t => .error (.notArray t.kind)

/-- The node that a path leads to. -/
def get (t : Tree ν) : Path → Except Fault (Tree ν)
  | [] => .ok t
  | s :: rest =>
    match t.child s with
    | .error fault => .error fault
    | .ok u => if s = .wildcard then .ok u else get u rest

/-- The steps that a look-up tries. -/
def getSteps (t : Tree ν) : Path → List Event
  | [] => []
  | s :: rest =>
    .getStep s t.kind ::
      match t.child s with
      | .error _ => []
      | .ok u => if s = .wildcard then [] else getSteps u rest

/-- What a look-up reports. -/
def getEvents (t : Tree ν) (p : Path) : List Event := .getStarted p :: t.getSteps p

end DocPath.Tree
