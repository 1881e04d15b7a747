import DocPath.Tree.Basic

/-!
# Sameness of trees

Two trees are the same if they differ only in the order of fields and in how equal numbers are
held.  What counts as equal numbers is a parameter, and it need not be reflexive: with numbers that
differ from themselves, a tree that holds one is not the same as itself.
-/

namespace DocPath.Tree

variable {ν : Type}

/-! ## 1. The comparison -/

mutual

/-- Sameness of trees under an equality of numbers.  Arrays agree place by place; objects have the
same number of fields, and every field of the first has a counterpart of its name in the second. -/
def same (eq : ν → ν → Bool) : Tree ν → Tree ν → Bool
  | null, null => true
  | bool b, bool c => b == c
  | number x, number y => eq x y
  | string s, string u => s == u
  | array ts, array us => sameItems eq ts us
  | object fs, object gs => fs.length == gs.length && sameFields eq fs gs
  | _, _ => false

/-- Sameness place by place. -/
def sameItems (eq : ν → ν → Bool) : List (Tree ν) → List (Tree ν) → Bool
  | [], [] => true
  | t :: ts, u :: us => same eq t u && sameItems eq ts us
  | _, _ => false

/-- Every field of the first list has a counterpart in the second. -/
def sameFields (eq : ν → ν → Bool) : List (String × Tree ν) → Fields (Tree ν) → Bool
  | [], _ => true
  | (k, t) :: fs, gs =>
    (match Fields.get? k gs with
      | some u => same eq t u
      | none => false) && sameFields eq fs gs

end

/-! ## 2. What is the same as a leaf -/

variable {eq : ν → ν → Bool} {b : Tree ν}

theorem same_null_iff : same eq null b = true ↔ null = b := by
  cases b <;> simp [same]

theorem same_bool_iff {x : Bool} : same eq (bool x) b = true ↔ bool x = b := by
  cases b <;> simp [same]

theorem same_number_iff {x : ν} :
    same eq (number x) b = true ↔ ∃ y, b = number y ∧ eq x y = true := by
  cases b <;> simp [same]

theorem same_string_iff {s : String} : same eq (string s) b = true ↔ string s = b := by
  cases b <;> simp [same]

end DocPath.Tree
