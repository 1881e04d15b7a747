import DocPath.Fields.Basic

/-!
# Trees

A tree is what a document holds: nulls, truth values, numbers, strings, arrays, and objects with
their fields in order.  The type of the numbers is a parameter, because the numbers of a JSON text
and the numbers that a program computes with are different things; `bind` replaces every number by
a tree and is how the one kind of tree becomes the other.

The fields of an object have distinct names in every tree that this library builds.  That is
`WellFormed`; the laws that need it say so.
-/

namespace DocPath

/-! ## 1. The type -/

/-- A tree over numbers of type `ν`. -/
inductive Tree (ν : Type) where
  | null
  | bool (b : Bool)
  | number (x : ν)
  | string (s : String)
  | array (items : List (Tree ν))
  | object (fields : List (String × Tree ν))
deriving Inhabited

/-- The kinds of nodes. -/
inductive Kind where
  | null
  | bool
  | number
  | string
  | array
  | object
deriving DecidableEq, Repr

/-- The word for a kind. -/
def Kind.name : Kind → String
  | null => "null"
  | bool => "bool"
  | number => "number"
  | string => "string"
  | array => "array"
  | object => "object"

namespace Tree

variable {ν μ : Type}

/-! ## 2. Views of a node -/

/-- The kind of the root node. -/
def kind : Tree ν → Kind
  | null => .null
  | bool _ => .bool
  | number _ => .number
  | string _ => .string
  | array _ => .array
  | object _ => .object

/-- The truth value that the node is. -/
def bool? : Tree ν → Option Bool
  | bool b => some b
  | _ => none

/-- The number that the node is. -/
def number? : Tree ν → Option ν
  | number x => some x
  | _ => none

/-- The string that the node is. -/
def string? : Tree ν → Option String
  | string s => some s
  | _ => none

/-- The elements of the array that the node is. -/
def items? : Tree ν → Option (List (Tree ν))
  | array items => some items
  | _ => none

/-- The fields of the object that the node is. -/
def fields? : Tree ν → Option (Fields (Tree ν))
  | object fields => some fields
  | _ => none

/-! ## 3. Whole trees -/

mutual

/-- Replaces every number by a tree. -/
def bind (f : ν → Tree μ) : Tree ν → Tree μ
  | null => null
  | bool b => bool b
  | number x => f x
  | string s => string s
  | array items => array (bindItems f items)
  | object fields => object (bindFields f fields)

/-- `bind` on every element. -/
def bindItems (f : ν → Tree μ) : List (Tree ν) → List (Tree μ)
  | [] => []
  | t :: ts => bind f t :: bindItems f ts

/-- `bind` on the value of every field. -/
def bindFields (f : ν → Tree μ) : List (String × Tree ν) → List (String × Tree μ)
  | [] => []
  | (k, t) :: fs => (k, bind f t) :: bindFields f fs

end

theorem bindItems_eq_map (f : ν → Tree μ) (ts : List (Tree ν)) :
    bindItems f ts = ts.map (bind f) := by
  induction ts with
  | nil => rfl
  | cons t ts ih => rw [bindItems, ih, List.map_cons]

theorem bindFields_eq_map (f : ν → Tree μ) (fs : List (String × Tree ν)) :
    bindFields f fs = fs.map fun field => (field.1, bind f field.2) := by
  induction fs with
  | nil => rfl
  | cons field fs ih => rw [bindFields, ih, List.map_cons]

mutual

/-- How many arrays and objects are open around the innermost node. -/
def depth : Tree ν → Nat
  | null => 0
  | bool _ => 0
  | number _ => 0
  | string _ => 0
  | array items => depthItems items + 1
  | object fields => depthFields fields + 1

/-- The greatest depth of an element. -/
def depthItems : List (Tree ν) → Nat
  | [] => 0
  | t :: ts => max (depth t) (depthItems ts)

/-- The greatest depth of a field's value. -/
def depthFields : List (String × Tree ν) → Nat
  | [] => 0
  | (_, t) :: fs => max (depth t) (depthFields fs)

end

/-- The names of the fields are distinct in every object of the tree. -/
inductive WellFormed : Tree ν → Prop where
  | null : WellFormed null
  | bool (b : Bool) : WellFormed (bool b)
  | number (x : ν) : WellFormed (number x)
  | string (s : String) : WellFormed (string s)
  | array {items : List (Tree ν)} : (∀ t ∈ items, WellFormed t) → WellFormed (array items)
  | object {fields : List (String × Tree ν)} : (Fields.keys fields).Nodup →
      (∀ field ∈ fields, WellFormed field.2) → WellFormed (object fields)

/-! ## 4. Trees can be compared -/

mutual

/-- Decides whether two trees are equal. -/
def decEq [DecidableEq ν] : (t u : Tree ν) → Decidable (t = u)
  | null, null => isTrue rfl
  | bool b, bool c => decidable_of_iff (b = c) (by simp)
  | number x, number y => decidable_of_iff (x = y) (by simp)
  | string s, string u => decidable_of_iff (s = u) (by simp)
  | array ts, array us =>
    match decEqItems ts us with
    | isTrue h => isTrue (h ▸ rfl)
    | isFalse h => isFalse fun e => h (array.inj e)
  | object fs, object gs =>
    match decEqFields fs gs with
    | isTrue h => isTrue (h ▸ rfl)
    | isFalse h => isFalse fun e => h (object.inj e)
  | null, bool _ | null, number _ | null, string _ | null, array _ | null, object _
  | bool _, null | bool _, number _ | bool _, string _ | bool _, array _ | bool _, object _
  | number _, null | number _, bool _ | number _, string _ | number _, array _
  | number _, object _
  | string _, null | string _, bool _ | string _, number _ | string _, array _
  | string _, object _
  | array _, null | array _, bool _ | array _, number _ | array _, string _ | array _, object _
  | object _, null | object _, bool _ | object _, number _ | object _, string _
  | object _, array _ => isFalse nofun

/-- Decides whether two lists of trees are equal. -/
def decEqItems [DecidableEq ν] : (ts us : List (Tree ν)) → Decidable (ts = us)
  | [], [] => isTrue rfl
  | [], _ :: _ => isFalse nofun
  | _ :: _, [] => isFalse nofun
  | t :: ts, u :: us =>
    match decEq t u, decEqItems ts us with
    | isTrue h, isTrue hs => isTrue (h ▸ hs ▸ rfl)
    | isFalse h, _ => isFalse fun e => h (List.cons.inj e).1
    | _, isFalse h => isFalse fun e => h (List.cons.inj e).2

/-- Decides whether two lists of fields are equal, order included. -/
def decEqFields [DecidableEq ν] : (fs gs : List (String × Tree ν)) → Decidable (fs = gs)
  | [], [] => isTrue rfl
  | [], _ :: _ => isFalse nofun
  | _ :: _, [] => isFalse nofun
  | (k, t) :: fs, (l, u) :: gs =>
    match decEq t u, decEqFields fs gs with
    | isTrue h, isTrue hs => decidable_of_iff (k = l) (by simp [h, hs])
    | isFalse h, _ => isFalse fun e => h (Prod.mk.inj (List.cons.inj e).1).2
    | _, isFalse h => isFalse fun e => h (List.cons.inj e).2

end

instance [DecidableEq ν] : DecidableEq (Tree ν) := decEq

end Tree

end DocPath
