import DocPath.Proofs.Frames
import DocPath.Proofs.Sameness

/-!
# Sameness cannot be seen through

Two trees that are the same may hold their fields in another order, at any depth, and equal numbers
in another form.  No look-up and no assignment tells them apart (`getAt_setAt_of_same`): along every
path both trees give an answer, and the answers are the same, or both refuse with the same failure;
and after an assignment of values that are the same, whether it succeeds or fails half-way, the
trees are the same again.

What carries the proof is the view of an object by its names.  Two objects with distinct names are
the same if and only if every name has values in both that are the same, or in neither
(`same_object_iff_get?`).  In this view the place of a field is gone, so writing to a name on both
sides keeps objects the same wherever the name stands in each, or if it is new (`same_insert`).  The
rest follows the walk: the steps down (`alike_step`), the step back up (`same_refill`), and the two
inductions along the path (`alike_get`, `same_graft`).
-/

namespace DocPath

namespace Tree

variable {ν : Type} {eq : ν → ν → Bool} {a b t u v w : Tree ν} {ts us : List (Tree ν)}
  {fs gs : Fields (Tree ν)}

/-! ## 1. Objects by their names -/

/-- **Objects are the same name by name**: every name has a value in both, and the values are the
same, or it has none in either. -/
theorem same_object_iff_get? (hfs : fs.keys.Nodup) (hgs : gs.keys.Nodup) :
    same eq (object fs) (object gs) = true ↔
      ∀ name, Option.Rel (fun t u => same eq t u = true) (fs.get? name) (gs.get? name) := by
  constructor
  · intro h name
    cases hf : fs.get? name with
    | some t =>
      obtain ⟨gs', hgs', -, hall⟩ := same_object_iff.1 h
      cases hgs'
      obtain ⟨u, hu, hsame⟩ := hall _ (Fields.mem_of_get? hf)
      rw [show gs.get? name = some u from hu]
      exact .some hsame
    | none =>
      have hname : name ∉ gs.keys := by
        intro hmem
        exact Fields.get?_eq_none_iff.1 hf ((perm_keys_of_same hfs h).mem_iff.2 hmem)
      rw [Fields.get?_eq_none_iff.2 hname]
      exact .none
  · intro h
    -- every name is a name of both or of neither, so they have equally many
    have hkeys : fs.keys.Perm gs.keys := by
      refine (List.perm_ext_iff_of_nodup hfs hgs).2 ?_
      intro name
      have hrel := h name
      rw [← Fields.isSome_get?_iff, ← Fields.isSome_get?_iff]
      cases hf : fs.get? name <;> cases hg : gs.get? name <;> simp_all
    have hlength : fs.length = gs.length := by
      simpa [Fields.keys] using hkeys.length_eq
    refine same_object_iff.2 ⟨gs, rfl, hlength, ?_⟩
    intro field hfield
    have hrel := h field.1
    rw [Fields.get?_of_mem hfs hfield] at hrel
    generalize gs.get? field.1 = found at hrel
    cases hrel with
    | some hsame => exact ⟨_, rfl, hsame⟩

/-- Writing values that are the same to one name keeps objects the same, wherever the name stands in
each of them. -/
theorem same_insert (hfs : fs.keys.Nodup) (h : same eq (object fs) (object gs) = true)
    (hvw : same eq v w = true) (name : String) :
    same eq (object (fs.insert name v)) (object (gs.insert name w)) = true := by
  have hgs := (perm_keys_of_same hfs h).nodup_iff.1 hfs
  refine (same_object_iff_get? (Fields.nodup_keys_insert hfs) (Fields.nodup_keys_insert hgs)).2 ?_
  intro other
  rw [Fields.get?_insert, Fields.get?_insert]
  by_cases hname : name = other
  · rw [if_pos hname, if_pos hname]
    exact .some hvw
  · rw [if_neg hname, if_neg hname]
    exact (same_object_iff_get? hfs hgs).1 h other

/-! ## 2. Arrays by their places -/

section Places

variable {α : Type} {R : α → α → Prop} {xs ys : List α}

/-- In lists that agree place by place, every place has elements in both that agree, or in
neither. -/
theorem rel_element? (h : List.Forall₂ R xs ys) (place : Int64) :
    Option.Rel R (element? xs place) (element? ys place) := by
  have hnat (n : Nat) : Option.Rel R xs[n]? ys[n]? := by
    induction h generalizing n with
    | nil => exact .none
    | cons hxy _ ih =>
      cases n with
      | zero => exact .some hxy
      | succ n => exact ih n
  unfold element?
  cases place.toInt with
  | ofNat n => exact hnat n
  | negSucc n => exact .none

theorem forall₂_set {x y : α} (h : List.Forall₂ R xs ys) (hxy : R x y) (n : Nat) :
    List.Forall₂ R (xs.set n x) (ys.set n y) := by
  induction h generalizing n with
  | nil => exact .nil
  | cons hhead htail ih =>
    cases n with
    | zero => exact .cons hxy htail
    | succ n => exact .cons hhead (ih n)

end Places

/-! ## 3. One step down and one step back up -/

/-- Two answers that do not tell trees apart: both are trees, and the same, or both are the same
failure. -/
inductive Alike (eq : ν → ν → Bool) {ε : Type} : Except ε (Tree ν) → Except ε (Tree ν) → Prop where
  | found {t u : Tree ν} : same eq t u = true → Alike eq (.ok t) (.ok u)
  | failed (failure : ε) : Alike eq (.error failure) (.error failure)

/-- **The steps down do not tell trees apart**, neither that of a look-up nor that of an
assignment. -/
theorem alike_step (ha : a.WellFormed) (h : same eq a b = true) (s : Segment) :
    Alike eq (a.child s) (b.child s) ∧ Alike eq (a.slot s) (b.slot s) := by
  cases a with
  | null =>
    obtain rfl := same_null_iff.1 h
    cases s with
    | key _ => exact ⟨.found rfl, .failed _⟩
    | index _ => exact ⟨.failed _, .failed _⟩
    | wildcard => exact ⟨.failed _, .failed _⟩
  | bool _ =>
    obtain rfl := same_bool_iff.1 h
    cases s <;> exact ⟨.failed _, .failed _⟩
  | number _ =>
    obtain ⟨_, rfl, -⟩ := same_number_iff.1 h
    cases s <;> exact ⟨.failed _, .failed _⟩
  | string _ =>
    obtain rfl := same_string_iff.1 h
    cases s <;> exact ⟨.failed _, .failed _⟩
  | array ts =>
    obtain ⟨us, rfl, hall⟩ := same_array_iff.1 h
    cases s with
    | key _ => exact ⟨.failed _, .failed _⟩
    | index place =>
      have hrel := rel_element? hall place
      simp only [child, slot, hall.length_eq]
      generalize element? ts place = x at hrel
      generalize element? us place = y at hrel
      cases hrel with
      | some hsame => exact ⟨.found hsame, .found hsame⟩
      | none => exact ⟨.failed _, .failed _⟩
    | wildcard => exact ⟨.found h, .failed _⟩
  | object fs =>
    obtain ⟨gs, rfl, -⟩ := same_object_iff.1 h
    cases s with
    | key name =>
      have hfs := (wellFormed_object_iff.1 ha).1
      have hgs := (perm_keys_of_same hfs h).nodup_iff.1 hfs
      have hrel := (same_object_iff_get? hfs hgs).1 h name
      simp only [child, slot]
      generalize Fields.get? name fs = x at hrel
      generalize Fields.get? name gs = y at hrel
      cases hrel with
      | some hsame => exact ⟨.found hsame, .found hsame⟩
      -- the look-up goes on from null in both, the assignment from an object without fields
      | none => exact ⟨.found rfl, .found rfl⟩
    | index _ => exact ⟨.failed _, .failed _⟩
    | wildcard => exact ⟨.failed _, .failed _⟩

/-- **The step back up does not tell trees apart.** -/
theorem same_refill (ha : a.WellFormed) (h : same eq a b = true) (hvw : same eq v w = true)
    (s : Segment) : same eq (a.refill s v) (b.refill s w) = true := by
  cases a with
  | null =>
    obtain rfl := same_null_iff.1 h
    cases s <;> exact h
  | bool _ =>
    obtain rfl := same_bool_iff.1 h
    cases s <;> exact h
  | number _ =>
    obtain ⟨_, rfl, -⟩ := same_number_iff.1 h
    cases s <;> exact h
  | string _ =>
    obtain rfl := same_string_iff.1 h
    cases s <;> exact h
  | array ts =>
    obtain ⟨us, rfl, hall⟩ := same_array_iff.1 h
    cases s with
    | key _ => exact h
    | index place => exact same_array_iff.2 ⟨_, rfl, forall₂_set hall hvw _⟩
    | wildcard => exact h
  | object fs =>
    obtain ⟨gs, rfl, -⟩ := same_object_iff.1 h
    cases s with
    | key name => exact same_insert (wellFormed_object_iff.1 ha).1 h hvw name
    | index _ => exact h
    | wildcard => exact h

/-- The step down of an assignment leads to a node that is well formed. -/
theorem WellFormed.slot {s : Segment} (ha : a.WellFormed) (h : a.slot s = .ok t) :
    t.WellFormed := by
  obtain ⟨f, -, -, hcase⟩ := exists_frame_of_slot h
  rcases hcase with rfl | ⟨_, _, -, -, -, rfl, -⟩
  · exact (wellFormed_fill_iff.1 ha).2
  · exact .object List.nodup_nil nofun

/-- A look-up steps to null, stays where it is, or takes the step of an assignment. -/
theorem child_cases {s : Segment} (h : a.child s = .ok t) :
    t = null ∨ t = a ∨ a.slot s = .ok t := by
  unfold child at h
  split at h
  · next name fields =>
    cases hg : Fields.get? name fields with
    | some u =>
      rw [hg] at h
      exact .inr (.inr (by rw [slot, hg, ← Except.ok.inj h]; rfl))
    | none =>
      rw [hg] at h
      exact .inl (Except.ok.inj h).symm
  · exact .inl (Except.ok.inj h).symm
  · cases h
  · exact .inr (.inr h)
  · cases h
  · exact .inr (.inl (Except.ok.inj h).symm)
  · cases h

/-- So does that of a look-up. -/
theorem WellFormed.child {s : Segment} (ha : a.WellFormed) (h : a.child s = .ok t) :
    t.WellFormed := by
  rcases child_cases h with rfl | rfl | hslot
  · exact .null
  · exact ha
  · exact ha.slot hslot

/-! ## 4. Whole walks -/

/-- **Look-ups do not tell trees apart.** -/
theorem alike_get (ha : a.WellFormed) (h : same eq a b = true) (p : Path) :
    Alike eq (a.get p) (b.get p) := by
  induction p generalizing a b with
  | nil => exact .found h
  | cons s rest ih =>
    have hstep := (alike_step ha h s).1
    rw [get, get]
    generalize hx : a.child s = x at hstep
    generalize b.child s = y at hstep
    cases hstep with
    | failed fault => exact .failed fault
    | found hsame =>
      by_cases hs : s = .wildcard
      · simp only [hs, ↓reduceIte]
        exact .found hsame
      · simp only [hs, ↓reduceIte]
        exact ih (ha.child hx) hsame

/-- **Assignments do not tell trees apart**: they end in the same way, and what they leave is the
same, also if they fail. -/
theorem same_graft (ha : a.WellFormed) (h : same eq a b = true) (hvw : same eq v w = true)
    (p : Path) :
    (graft v a p).fault? = (graft w b p).fault? ∧
      same eq (graft v a p).tree (graft w b p).tree = true := by
  induction p generalizing a b with
  | nil => exact ⟨rfl, hvw⟩
  | cons s rest ih =>
    have hstep := (alike_step ha h s).2
    generalize hx : a.slot s = x at hstep
    generalize hy : b.slot s = y at hstep
    cases hstep with
    | failed fault =>
      rw [graft_cons_of_slot_error hx, graft_cons_of_slot_error hy]
      exact ⟨rfl, h⟩
    | found hsame =>
      rw [graft_cons_of_slot hx, graft_cons_of_slot hy]
      obtain ⟨hfault, htree⟩ := ih (ha.slot hx) hsame
      exact ⟨hfault, same_refill ha h htree s⟩

end Tree

/-! ## 5. Documents -/

namespace Document

/-- **Look-ups and assignments respect sameness.**  Of two documents that are the same, a look-up at
any address finds values that are the same, or fails in both with the same failure; and assignments
of values that are the same, at any address, both succeed or both fail with the same failure, and
leave documents that are the same in either case.  The names of the fields are distinct in the first
document. -/
theorem getAt_setAt_of_same {a b : Document} (ha : a.WellFormed) (h : a.same b = true)
    (x : Address) :
    Tree.Alike Double.eq (a.getAt x) (b.getAt x) ∧
      ∀ v w : Document, v.same w = true →
        (a.setAt x v).2 = (b.setAt x w).2 ∧ same (a.setAt x v).1 (b.setAt x w).1 = true := by
  constructor
  · have hget := Tree.alike_get ha h x.path
    rw [Tree.getAt, Tree.getAt]
    generalize a.get x.path = found at hget
    generalize b.get x.path = found' at hget
    cases hget with
    | found hsame => exact .found hsame
    | failed fault => exact .failed _
  · intro v w hvw
    by_cases hpath : x.path = []
    · rw [Tree.setAt_of_nil hpath, Tree.setAt_of_nil hpath]
      exact ⟨rfl, h⟩
    · obtain ⟨hfault, htree⟩ := Tree.same_graft ha h hvw x.path
      rw [Tree.setAt_of_ne_nil hpath, Tree.setAt_of_ne_nil hpath, hfault]
      exact ⟨rfl, htree⟩

/-! ## 6. Another order, the other zero, and an assignment that fails half-way -/

namespace Example

/-- `{"x": [{"p": 0, "q": null}], "y": true}` -/
def positive : Document :=
  .object [("x", .array [.object [("p", .number (.finite ⟨false, 0, representable_zero⟩)),
    ("q", .null)]]), ("y", .bool true)]

/-- `{"y": true, "x": [{"q": null, "p": -0.0}]}` -/
def negative : Document :=
  .object [("y", .bool true), ("x", .array [.object [("q", .null),
    ("p", .number (.finite ⟨true, 0, representable_zero⟩))]])]

/-- `x[0].r[2]`, which makes an object for `r` and fails there. -/
def failing : Address := .ofPath [.key "x", .index 0, .key "r", .index 2]

/-- `x[0].p` -/
def zero : Address := .ofPath [.key "x", .index 0, .key "p"]

theorem wellFormed_positive : positive.WellFormed := by
  simp [positive, Tree.wellFormed_object_iff, Tree.wellFormed_array_iff, Fields.keys,
    Tree.WellFormed.null, Tree.WellFormed.bool, Tree.WellFormed.number]

theorem same_after_failing :
    positive.same negative = true ∧ positive ≠ negative ∧
      Tree.Alike Double.eq (positive.getAt zero) (negative.getAt zero) ∧
      positive.getAt zero ≠ negative.getAt zero ∧
      (positive.setAt failing .null).2 = some (.walk failing.name (.notArray .object)) ∧
      (positive.setAt failing .null).1 ≠ positive ∧
      (positive.setAt failing .null).2 = (negative.setAt failing .null).2 ∧
      same (positive.setAt failing .null).1 (negative.setAt failing .null).1 = true := by
  have hsame : positive.same negative = true := by decide
  have hget := (getAt_setAt_of_same wellFormed_positive hsame zero).1
  have hset := (getAt_setAt_of_same wellFormed_positive hsame failing).2 .null .null (by decide)
  have hfound : positive.getAt zero ≠ negative.getAt zero := by
    intro h
    have hzeros := Tree.number.inj (Except.ok.inj h)
    simp at hzeros
  exact ⟨hsame, by decide +kernel, hget, hfound, by decide +kernel, by decide +kernel, hset⟩

end Example

end Document

end DocPath
