import DocPath.Tree.Assignment
import DocPath.Tree.Lookup

/-!
# One step of a look-up and one step of an assignment

`Tree.child` is the step down of a look-up and `Tree.slot` that of an assignment.  They differ in
two places only: at a name that an object lacks, where the look-up goes on from null and the
assignment from an empty object, and at a wildcard, which ends the one and stops the other.

Everything an assignment can do in one step is said once, in `slot_cases`; what a step back up
changes is said by `child_refill` (the segment itself now leads to the new node) and
`child_refill_of_apart` (a segment that names another field or another element leads where it did).
The walks of `Tree.get` and `Tree.graft` are opened by the lemmas of section 4 and nowhere else.
-/

namespace DocPath

/-! ## 1. Elements -/

section Element

variable {α : Type} {items : List α} {i j : Int64} {x : α}

/-- A place that has an element is a natural number below the length. -/
theorem element?_eq_some_iff :
    element? items i = some x ↔ ∃ n : Nat, i.toInt = n ∧ items[n]? = some x := by
  unfold element?
  cases hi : i.toInt with
  | ofNat n =>
    constructor
    · intro h
      exact ⟨n, rfl, h⟩
    · rintro ⟨m, hm, hx⟩
      rw [← Int.ofNat.inj hm] at hx
      exact hx
  | negSucc n =>
    constructor
    · intro h
      cases h
    · rintro ⟨m, hm, -⟩
      cases hm

/-- What is written at a place that has an element is found there. -/
theorem element?_set_self (h : element? items i = some x) (y : α) :
    element? (items.set i.toInt.toNat y) i = some y := by
  obtain ⟨n, hn, hx⟩ := element?_eq_some_iff.1 h
  obtain ⟨hlt, -⟩ := List.getElem?_eq_some_iff.1 hx
  refine element?_eq_some_iff.2 ⟨n, hn, ?_⟩
  rw [hn, Int.toNat_natCast, List.getElem?_set_self hlt]

/-- Writing at one place leaves the elements at all other places. -/
theorem element?_set_ne (h : element? items i = some x) (hij : i ≠ j) (y : α) :
    element? (items.set i.toInt.toNat y) j = element? items j := by
  obtain ⟨n, hn, -⟩ := element?_eq_some_iff.1 h
  have hne : i.toInt ≠ j.toInt := fun e => hij (Int64.toInt_inj.1 e)
  unfold element?
  cases hj : j.toInt with
  | ofNat m =>
    have hnm : n ≠ m := by
      rintro rfl
      exact hne (hn.trans hj.symm)
    simp only [hn, Int.toNat_natCast, List.getElem?_set_ne hnm]
  | negSucc m => rfl

end Element

/-! ## 2. Segments that lead apart -/

/-- Two names that differ, or two places that differ.  Such segments never lead from one node to
the same node below it. -/
def Segment.Apart : Segment → Segment → Prop
  | .key k, .key l => k ≠ l
  | .index i, .index j => i ≠ j
  | _, _ => False

namespace Tree

variable {ν : Type} {s s' : Segment} {t u : Tree ν}

/-! ## 3. The step down and the step back up -/

/-- **All that the step down of an assignment can do**: it enters a field, it starts an empty
object for a name that the object lacks, or it enters an element. -/
theorem slot_cases (h : t.slot s = .ok u) :
    (∃ name fields, s = .key name ∧ t = object fields ∧ Fields.get? name fields = some u) ∨
    (∃ name fields, s = .key name ∧ t = object fields ∧ Fields.get? name fields = none ∧
      u = object []) ∨
    (∃ place items, s = .index place ∧ t = array items ∧ element? items place = some u) := by
  unfold slot at h
  split at h
  · next name fields =>
    have hu := Except.ok.inj h
    cases hg : Fields.get? name fields with
    | some w => exact .inl ⟨name, fields, rfl, rfl, by rw [hg, ← hu, hg]; rfl⟩
    | none => exact .inr (.inl ⟨name, fields, rfl, rfl, hg, by rw [← hu, hg]; rfl⟩)
  · cases h
  · next place items =>
    split at h
    · next w hw => exact .inr (.inr ⟨place, items, rfl, rfl, Except.ok.inj h ▸ hw⟩)
    · cases h
  · cases h
  · cases h

/-- A step down that succeeds goes by name into an object or by place into an array. -/
theorem name_or_place_of_slot (h : t.slot s = .ok u) :
    (∃ name fields, s = .key name ∧ t = object fields) ∨
    ∃ place items, s = .index place ∧ t = array items ∧ element? items place = some u := by
  rcases slot_cases h with ⟨name, fields, hs, ht, -⟩ | ⟨name, fields, hs, ht, -, -⟩ |
    ⟨place, items, hs, ht, he⟩
  · exact .inl ⟨name, fields, hs, ht⟩
  · exact .inl ⟨name, fields, hs, ht⟩
  · exact .inr ⟨place, items, hs, ht, he⟩

/-- An assignment takes no step through a wildcard. -/
theorem ne_wildcard_of_slot (h : t.slot s = .ok u) : s ≠ .wildcard := by
  rintro rfl
  cases h

/-- A look-up takes the step that an assignment takes, or it stands on null where the assignment
starts an empty object. -/
theorem child_of_slot (h : t.slot s = .ok u) :
    t.child s = .ok u ∨ t.child s = .ok null ∧ u = object [] := by
  rcases slot_cases h with ⟨name, fields, rfl, rfl, hg⟩ | ⟨name, fields, rfl, rfl, hg, rfl⟩ |
    ⟨place, items, rfl, rfl, he⟩
  · left
    simp [child, hg]
  · right
    exact ⟨by simp [child, hg], rfl⟩
  · left
    simp [child, he]

/-- After the step back up the segment leads to the new node. -/
theorem child_refill (h : t.slot s = .ok u) (w : Tree ν) : (t.refill s w).child s = .ok w := by
  rcases name_or_place_of_slot h with ⟨name, fields, rfl, rfl⟩ | ⟨place, items, rfl, rfl, he⟩
  · simp [refill, child, Fields.get?_insert]
  · simp only [refill, child, element?_set_self he]

/-- After the step back up every other segment leads where it led, or fails as it failed. -/
theorem child_refill_of_apart (h : t.slot s = .ok u) (ha : s.Apart s') (w : Tree ν) :
    (t.refill s w).child s' = t.child s' := by
  rcases name_or_place_of_slot h with ⟨name, fields, rfl, rfl⟩ | ⟨place, items, rfl, rfl, he⟩
  · cases s' with
    | key other =>
      have hne : name ≠ other := ha
      simp [refill, child, Fields.get?_insert, hne]
    | index _ => exact ha.elim
    | wildcard => exact ha.elim
  · cases s' with
    | key _ => exact ha.elim
    | index other =>
      have hne : place ≠ other := ha
      simp only [refill, child, element?_set_ne he hne, List.length_set]
    | wildcard => exact ha.elim

/-- An object without fields answers a name as null does. -/
theorem child_object_nil (name : String) :
    (object [] : Tree ν).child (.key name) = (null : Tree ν).child (.key name) := rfl

/-- An object without fields can be entered by name only. -/
theorem key_of_slot_object_nil (h : (object [] : Tree ν).slot s = .ok u) :
    ∃ name, s = .key name := by
  rcases name_or_place_of_slot h with ⟨name, _, hs, -⟩ | ⟨_, _, -, ht, -⟩
  · exact ⟨name, hs⟩
  · cases ht

/-! ## 4. The walks, a step at a time -/

/-- A look-up through a segment that is no wildcard goes on from the node it leads to. -/
theorem get_cons_of_child (hs : s ≠ .wildcard) (h : t.child s = .ok u) (rest : Path) :
    t.get (s :: rest) = u.get rest := by
  simp [get, h, hs]

/-- Where one step agrees, so do the look-ups that begin with it. -/
theorem get_cons_congr (h : t.child s = u.child s) (rest : Path) :
    t.get (s :: rest) = u.get (s :: rest) := by
  rw [get, get, h]

/-- A step that succeeds is followed by the rest of the walk, and refilled with what that leaves. -/
theorem graft_cons_of_slot {v : Tree ν} (h : t.slot s = .ok u) (rest : Path) :
    graft v t (s :: rest) =
      ⟨t.refill s (graft v u rest).tree, (graft v u rest).fault?⟩ := by
  rw [graft, h]

/-- A step that fails ends the walk and leaves the node as it is. -/
theorem graft_cons_of_slot_error {v : Tree ν} {fault : Fault} (h : t.slot s = .error fault)
    (rest : Path) : graft v t (s :: rest) = ⟨t, some fault⟩ := by
  rw [graft, h]

/-- A walk that succeeds begins with a step that succeeds. -/
theorem slot_of_graft_cons {v : Tree ν} {rest : Path}
    (h : (graft v t (s :: rest)).fault? = none) :
    ∃ u, t.slot s = .ok u ∧ (graft v u rest).fault? = none := by
  cases hs : t.slot s with
  | error fault =>
    rw [graft_cons_of_slot_error hs] at h
    cases h
  | ok u =>
    rw [graft_cons_of_slot hs] at h
    exact ⟨u, rfl, h⟩

end Tree

end DocPath
