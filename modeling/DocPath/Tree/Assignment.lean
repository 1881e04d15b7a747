import DocPath.Event
import DocPath.Tree.Fault

/-!
# Assigning to a node

An assignment walks from the root along the segments of a path and puts a value where the path
ends.  Where an object lacks a key on the way, the walk makes an empty object for it; arrays never
grow.  What the walk made stays, also if a later segment fails, so an assignment always leaves a
tree, and with it a fault if it failed.

`Tree.slot` is one step down, `Tree.refill` the way back up, `Tree.graft` the walk for any path,
and `Tree.set` the assignment, which wants a path with at least one segment.  `Tree.setEvents` is
what an assignment reports.
-/

namespace DocPath

/-- What an assignment leaves behind: the tree, and the fault that ended it if one did. -/
structure Assignment (ν : Type) where
  tree : Tree ν
  fault? : Option Fault

namespace Tree

variable {ν : Type}

/-- What a segment has to be filled with anew: the node it leads to, or an empty object for a key
that the object lacks. -/
def slot (s : Segment) (t : Tree ν) : Except Fault (Tree ν) :=
  match s, t with
  | .key name, object fields => .ok ((Fields.get? name fields).getD (object []))
  | .key _, t => .error (.notObject t.kind)
  | .index place, array items =>
    match element? items place with
    | some t => .ok t
    | none => .error (.outOfRange place items.length)
  | .index _, t => .error (.notArray t.kind)
  | .wildcard, _ => .error .wildcard

/-- The node `t` with `u` in the slot of a segment. -/
def refill (s : Segment) (t u : Tree ν) : Tree ν :=
  match s, t with
  | .key name, object fields => object (Fields.insert name u fields)
  | .index place, array items => array (items.set place.toInt.toNat u)
  | _, t => t

/-- Puts `v` where a path leads; the path without segments leads to the root. -/
def graft (v t : Tree ν) : Path → Assignment ν
  | [] => ⟨v, none⟩
  | s :: rest =>
    match t.slot s with
    | .error fault => ⟨t, some fault⟩
    | .ok u =>
      let inner := graft v u rest
      ⟨t.refill s inner.tree, inner.fault?⟩

/-- Assigns `v` at a path. -/
def set (t : Tree ν) (p : Path) (v : Tree ν) : Assignment ν :=
  if p = [] then ⟨t, some .emptyPath⟩ else graft v t p

/-- The report on the object that a step makes, if it makes one. -/
def created? (whole : Path) (s : Segment) (t : Tree ν) : Option Event :=
  match s, t with
  | .key name, object fields =>
    if (Fields.get? name fields).isSome then none else some (.objectCreated whole name)
  | _, _ => none

/-- The steps that an assignment along `whole` tries from a node on. -/
def setSteps (whole : Path) (t : Tree ν) : Path → List Event
  | [] => []
  | [s] => [.assigning s t.kind]
  | s :: rest =>
    .setStep s t.kind ::
      match t.slot s with
      | .error _ => []
      | .ok u => (t.created? whole s).toList ++ setSteps whole u rest

/-- What an assignment reports. -/
def setEvents (t : Tree ν) (p : Path) : List Event := .setStarted p :: t.setSteps p p

end Tree

end DocPath
