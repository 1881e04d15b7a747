import DocPath.Tree.Basic

/-!
# Changing a node that is there

Exact steps lead only to nodes that are present: a name to a field of an object, a place to an
element of an array, where places count from zero and none is negative.  `Tree.focus?` finds the
node, and `Tree.modify` puts another in its place.
-/

namespace DocPath

/-- A step to a node that is present. -/
inductive ExactStep where
  | field (name : String)
  | element (place : Int)
deriving DecidableEq, Repr

namespace Tree

variable {ν : Type}

/-- The node that one exact step leads to. -/
def enter? (s : ExactStep) (t : Tree ν) : Option (Tree ν) :=
  match s, t with
  | .field name, object fields => Fields.get? name fields
  | .element (.ofNat place), array items => items[place]?
  | _, _ => none

/-- The node that exact steps lead to. -/
def focus? (t : Tree ν) : List ExactStep → Option (Tree ν)
  | [] => some t
  | s :: rest => (t.enter? s).bind fun u => focus? u rest

/-- The tree with another node where the exact steps lead; unchanged if they lead nowhere. -/
def modify (f : Tree ν → Tree ν) (t : Tree ν) : List ExactStep → Tree ν
  | [] => f t
  | s :: rest =>
    match s, t with
    | .field name, object fields =>
      match Fields.get? name fields with
      | some u => object (Fields.insert name (modify f u rest) fields)
      | none => object fields
    | .element (.ofNat place), array items =>
      match items[place]? with
      | some u => array (items.set place (modify f u rest))
      | none => array items
    | _, t => t

end Tree

end DocPath
