import DocPath.Proofs.DistinctNames
import Mathlib.Data.List.Perm.Subperm

/-!
# Sameness is a partial equivalence

Objects are compared in one direction only: they have equally many fields, and every field of the
first has a counterpart in the second.  That the comparison is symmetric all the same is a matter of
counting (`perm_keys`): distinct names that all occur among as many names are all of them.  With it
sameness is a partial equivalence as soon as the equality of numbers is one (`same_symm`,
`same_trans`).  It is reflexive exactly where that equality is, which for arithmetic means: where no
number is missing its value (`same_self_iff`, `Double.eq_self_iff`).

On trees that are the same as themselves the order of fields does not count, at any depth
(`same_of_reordered`).
-/

namespace DocPath

namespace Tree

variable {ν : Type} {eq : ν → ν → Bool} {a b c t u v : Tree ν} {ts us : List (Tree ν)}
  {fs gs : Fields (Tree ν)}

/-! ## 1. What is the same as a given node -/

theorem sameItems_iff :
    sameItems eq ts us = true ↔ List.Forall₂ (fun t u => same eq t u = true) ts us := by
  induction ts generalizing us with
  | nil => cases us <;> simp [sameItems]
  | cons t ts ih => cases us <;> simp [sameItems, ih]

theorem sameFields_iff :
    sameFields eq fs gs = true ↔
      ∀ field ∈ fs, ∃ u, Fields.get? field.1 gs = some u ∧ same eq field.2 u = true := by
  induction fs with
  | nil => simp [sameFields]
  | cons field fs ih =>
    obtain ⟨k, t⟩ := field
    rw [sameFields, Bool.and_eq_true, ih, List.forall_mem_cons]
    cases Fields.get? k gs <;> simp

/-- What is the same as an array is an array that agrees with it place by place. -/
theorem same_array_iff :
    same eq (array ts) b = true ↔
      ∃ us, b = array us ∧ List.Forall₂ (fun t u => same eq t u = true) ts us := by
  cases b <;> simp [same, sameItems_iff]

/-- What is the same as an object is an object of as many fields that has all of its names, with
values that are the same. -/
theorem same_object_iff :
    same eq (object fs) b = true ↔
      ∃ gs, b = object gs ∧ fs.length = gs.length ∧
        ∀ field ∈ fs, ∃ u, Fields.get? field.1 gs = some u ∧ same eq field.2 u = true := by
  cases b <;> simp [same, sameFields_iff]

/-! ## 2. Either way round, and on and on -/

/-- Distinct names that are all found among as many names are all of them. -/
theorem perm_keys (hnodup : fs.keys.Nodup) (hlength : fs.length = gs.length)
    (h : ∀ field ∈ fs, ∃ u, Fields.get? field.1 gs = some u) : fs.keys.Perm gs.keys := by
  have hsubset : fs.keys ⊆ gs.keys := by
    intro name hname
    obtain ⟨field, hfield, rfl⟩ := List.mem_map.1 hname
    obtain ⟨u, hu⟩ := h field hfield
    exact Fields.isSome_get?_iff.1 (by simp [hu])
  refine (List.subperm_of_subset hnodup hsubset).perm_of_length_le ?_
  simp [Fields.keys, hlength]

/-- Objects that are the same have the same names. -/
theorem perm_keys_of_same (hfs : fs.keys.Nodup) (h : same eq (object fs) (object gs) = true) :
    fs.keys.Perm gs.keys := by
  obtain ⟨gs', hgs, hlength, hall⟩ := same_object_iff.1 h
  cases hgs
  refine perm_keys hfs hlength ?_
  intro field hfield
  obtain ⟨u, hu, -⟩ := hall field hfield
  exact ⟨u, hu⟩

/-- **Sameness is symmetric** if the equality of numbers is, although it looks at the fields of the
first tree only. -/
theorem same_symm (hsymm : ∀ x y, eq x y = true → eq y x = true) (ha : a.WellFormed)
    (h : same eq a b = true) : same eq b a = true := by
  induction ha generalizing b with
  | null =>
    obtain rfl := same_null_iff.1 h
    exact h
  | bool _ =>
    obtain rfl := same_bool_iff.1 h
    exact h
  | number x =>
    obtain ⟨y, rfl, hxy⟩ := same_number_iff.1 h
    exact same_number_iff.2 ⟨x, rfl, hsymm x y hxy⟩
  | string _ =>
    obtain rfl := same_string_iff.1 h
    exact h
  | @array ts _ ih =>
    obtain ⟨us, rfl, hall⟩ := same_array_iff.1 h
    refine same_array_iff.2 ⟨ts, rfl, ?_⟩
    rw [List.forall₂_iff_get] at hall ⊢
    obtain ⟨hlength, hall⟩ := hall
    refine ⟨hlength.symm, ?_⟩
    intro i hi hi'
    exact ih _ (List.get_mem ts ⟨i, hi'⟩) (hall i hi' hi)
  | @object fs hnodup _ ih =>
    obtain ⟨gs, rfl, hlength, hall⟩ := same_object_iff.1 h
    have hperm := perm_keys_of_same hnodup h
    refine same_object_iff.2 ⟨fs, rfl, hlength.symm, ?_⟩
    rintro ⟨name, u⟩ hu
    -- the field of this name in `fs` has a counterpart in `gs`, and that is the field given
    have hname : name ∈ Fields.keys fs := hperm.mem_iff.2 (List.mem_map_of_mem (f := Prod.fst) hu)
    obtain ⟨t, ht⟩ := Option.isSome_iff_exists.1 (Fields.isSome_get?_iff.2 hname)
    have hmem := Fields.mem_of_get? ht
    obtain ⟨u', hu', hsame⟩ := hall _ hmem
    have hfound := Fields.get?_of_mem (hperm.nodup_iff.1 hnodup) hu
    cases hu'.symm.trans hfound
    exact ⟨t, ht, ih _ hmem hsame⟩

/-- **Sameness is transitive** if the equality of numbers is. -/
theorem same_trans (htrans : ∀ x y z, eq x y = true → eq y z = true → eq x z = true)
    (h : same eq a b = true) (h' : same eq b c = true) : same eq a c = true := by
  induction a using induct generalizing b c with
  | null => rwa [← same_null_iff.1 h] at h'
  | bool _ => rwa [← same_bool_iff.1 h] at h'
  | number x =>
    obtain ⟨y, rfl, hxy⟩ := same_number_iff.1 h
    obtain ⟨z, rfl, hyz⟩ := same_number_iff.1 h'
    exact same_number_iff.2 ⟨z, rfl, htrans x y z hxy hyz⟩
  | string _ => rwa [← same_string_iff.1 h] at h'
  | array ts ih =>
    obtain ⟨us, rfl, hall⟩ := same_array_iff.1 h
    obtain ⟨vs, rfl, hall'⟩ := same_array_iff.1 h'
    refine same_array_iff.2 ⟨vs, rfl, ?_⟩
    rw [List.forall₂_iff_get] at hall hall' ⊢
    obtain ⟨hlength, hall⟩ := hall
    obtain ⟨hlength', hall'⟩ := hall'
    refine ⟨hlength.trans hlength', ?_⟩
    intro i hi hi'
    have hi'' : i < us.length := hlength ▸ hi
    exact ih _ (List.get_mem ts ⟨i, hi⟩) (hall i hi hi'') (hall' i hi'' hi')
  | object fs ih =>
    obtain ⟨gs, rfl, hlength, hall⟩ := same_object_iff.1 h
    obtain ⟨hs, rfl, hlength', hall'⟩ := same_object_iff.1 h'
    refine same_object_iff.2 ⟨hs, rfl, hlength.trans hlength', ?_⟩
    intro field hfield
    obtain ⟨u, hu, hsame⟩ := hall field hfield
    obtain ⟨v, hv, hsame'⟩ := hall' _ (Fields.mem_of_get? hu)
    exact ⟨v, hv, ih field hfield hsame hsame'⟩

/-! ## 3. The same as itself -/

/-- An object is the same as itself if and only if its values are. -/
theorem same_object_self_iff (hnodup : fs.keys.Nodup) :
    same eq (object fs) (object fs) = true ↔ ∀ field ∈ fs, same eq field.2 field.2 = true := by
  have hfound : ∀ field ∈ fs, Fields.get? field.1 fs = some field.2 :=
    fun _ hfield => Fields.get?_of_mem hnodup hfield
  rw [same_object_iff]
  constructor
  · rintro ⟨gs, hgs, -, hall⟩ field hfield
    cases hgs
    obtain ⟨u, hu, hsame⟩ := hall field hfield
    cases (hfound field hfield).symm.trans hu
    exact hsame
  · intro h
    exact ⟨fs, rfl, rfl, fun field hfield => ⟨field.2, hfound field hfield, h field hfield⟩⟩

theorem same_array_self_iff :
    same eq (array ts) (array ts) = true ↔ ∀ t ∈ ts, same eq t t = true := by
  simp [same_array_iff, List.forall₂_same]

/-- **A tree is the same as itself exactly if its numbers are equal to themselves.** -/
theorem same_self_iff (ha : a.WellFormed) :
    same eq a a = true ↔ ∀ x ∈ a.numbers, eq x x = true := by
  induction ha with
  | null => simp [same, numbers]
  | bool _ => simp [same, numbers]
  | number _ => simp [same, numbers]
  | string _ => simp [same, numbers]
  | array _ ih =>
    simp only [same_array_self_iff, mem_numbers_array]
    constructor
    · rintro h x ⟨t, ht, hx⟩
      exact (ih t ht).1 (h t ht) x hx
    · intro h t ht
      exact (ih t ht).2 fun x hx => h x ⟨t, ht, hx⟩
  | object hnodup _ ih =>
    simp only [same_object_self_iff hnodup, mem_numbers_object]
    constructor
    · rintro h x ⟨field, hfield, hx⟩
      exact (ih field hfield).1 (h field hfield) x hx
    · intro h field hfield
      exact (ih field hfield).2 fun x hx => h x ⟨field, hfield, hx⟩

/-! ## 4. Fields in another order -/

theorem same_object_of_perm (h : fs.Perm gs) (hnodup : fs.keys.Nodup)
    (hself : same eq (object fs) (object fs) = true) :
    same eq (object fs) (object gs) = true := by
  refine same_object_iff.2 ⟨gs, rfl, h.length_eq, ?_⟩
  intro field hfield
  have hfound := Fields.get?_of_mem ((h.map Prod.fst).nodup_iff.1 hnodup) (h.mem_iff.1 hfield)
  exact ⟨field.2, hfound, (same_object_self_iff hnodup).1 hself field hfield⟩

/-- In a frame it comes down to what is in the gap, if the rest is the same as itself. -/
theorem same_fill {f : Frame ν} (hw : (f.fill t).WellFormed)
    (hself : same eq (f.fill t) (f.fill t) = true) :
    same eq t t = true ∧ (same eq t u = true → same eq (f.fill t) (f.fill u) = true) := by
  cases f with
  | element before after =>
    have hall := same_array_self_iff.1 hself
    simp only [List.forall_mem_append, List.forall_mem_cons] at hall
    obtain ⟨hbefore, ht, hafter⟩ := hall
    refine ⟨ht, ?_⟩
    intro htu
    exact same_array_iff.2 ⟨_, rfl, List.rel_append (List.forall₂_same.2 hbefore)
      (.cons htu (List.forall₂_same.2 hafter))⟩
  | field before name after =>
    obtain ⟨hnodup, -⟩ := wellFormed_object_iff.1 hw
    have hall := (same_object_self_iff hnodup).1 hself
    have hbefore : name ∉ Fields.keys before := Fields.not_mem_of_nodup hnodup
    refine ⟨hall (name, t) (by simp), ?_⟩
    intro htu
    refine same_object_iff.2 ⟨before ++ (name, u) :: after, rfl, by simp, ?_⟩
    intro field hfield
    -- only the field with the gap has another value
    rw [← Fields.insert_append hbefore t u after, Fields.get?_insert]
    by_cases hname : name = field.1
    · have hfound := Fields.get?_of_mem hnodup hfield
      rw [← hname, Fields.get?_append_cons hbefore] at hfound
      rw [if_pos hname, ← Option.some.inj hfound]
      exact ⟨u, rfl, htu⟩
    · rw [if_neg hname]
      exact ⟨field.2, Fields.get?_of_mem hnodup hfield, hall field hfield⟩

/-- **The order of fields does not count**, at any depth, in a tree that is the same as itself. -/
theorem same_of_reordered (hsymm : ∀ x y, eq x y = true → eq y x = true)
    (htrans : ∀ x y z, eq x y = true → eq y z = true → eq x z = true) (h : a.Reordered b)
    (ha : a.WellFormed) (hself : same eq a a = true) : same eq a b = true := by
  induction h with
  | refl _ => exact hself
  | fields hperm => exact same_object_of_perm hperm (wellFormed_object_iff.1 ha).1 hself
  | fill f _ ih =>
    obtain ⟨ht, hstep⟩ := same_fill ha hself
    exact hstep (ih (wellFormed_fill_iff.1 ha).2 ht)
  | trans h₁ _ ih₁ ih₂ =>
    have hfirst := ih₁ ha hself
    -- the tree in the middle is the same as the first one, hence the same as itself
    have hmiddle := same_trans htrans (same_symm hsymm ha hfirst) hfirst
    exact same_trans htrans hfirst (ih₂ (h₁.wellFormed ha) hmiddle)

end Tree

/-! ## 5. Documents -/

namespace Double

theorem eq_finite_iff {x y : Finite} :
    (finite x).eq (finite y) = true ↔
      x.units = y.units ∧ (x.negative = y.negative ∨ x.units = 0) := by
  simp [eq]

theorem eq_symm (x y : Double) (h : x.eq y = true) : y.eq x = true := by
  cases x <;> cases y
  case finite.finite x y =>
    obtain ⟨hunits, hsign⟩ := eq_finite_iff.1 h
    exact eq_finite_iff.2 ⟨hunits.symm, hsign.imp Eq.symm hunits.symm.trans⟩
  all_goals simp_all [eq]

theorem eq_trans (x y z : Double) (h : x.eq y = true) (h' : y.eq z = true) : x.eq z = true := by
  cases x <;> cases y <;> cases z
  case finite.finite.finite x y z =>
    obtain ⟨hunits, hsign⟩ := eq_finite_iff.1 h
    obtain ⟨hunits', hsign'⟩ := eq_finite_iff.1 h'
    refine eq_finite_iff.2 ⟨hunits.trans hunits', ?_⟩
    rcases hsign with hsign | hzero
    · exact hsign'.imp hsign.trans hunits.trans
    · exact .inr hzero
  all_goals simp_all [eq]

/-- Only what is no number differs from itself. -/
theorem eq_self_iff {x : Double} : x.eq x = true ↔ x ≠ .nan := by
  cases x <;> simp [eq]

end Double

namespace Document

theorem same_self_iff {a : Document} (ha : a.WellFormed) : a.same a = true ↔ .nan ∉ a.numbers := by
  rw [same, Tree.same_self_iff ha]
  simp only [Double.eq_self_iff]
  exact List.forall_mem_ne'

/-- **Sameness of documents is a partial equivalence that ignores the order of fields.**  It is
symmetric and transitive; a document is the same as itself exactly if it holds nothing that is no
number; and then it is also the same as every document that has the same fields in another order,
in any of its objects.  The names of the fields are distinct in the first document. -/
theorem same_partial_equivalence {a : Document} (ha : a.WellFormed) (b c : Document) :
    (a.same b = true → b.same a = true) ∧
      (a.same b = true → b.same c = true → a.same c = true) ∧
      (a.same a = true ↔ .nan ∉ a.numbers) ∧
      (.nan ∉ a.numbers → a.Reordered b → a.same b = true) := by
  have hself := same_self_iff ha
  refine ⟨Tree.same_symm Double.eq_symm ha, Tree.same_trans Double.eq_trans, hself, ?_⟩
  intro hnan h
  exact Tree.same_of_reordered Double.eq_symm Double.eq_trans h ha (hself.2 hnan)

/-! ## 6. Two zeros in one order and the other -/

namespace Example

/-- `{"x": [{"p": 0, "q": null}], "y": true}` -/
def inOrder : Document :=
  .object [("x", .array [.object [("p", .number (.finite ⟨false, 0, representable_zero⟩)),
    ("q", .null)]]), ("y", .bool true)]

/-- `{"y": true, "x": [{"q": null, "p": 0}]}` -/
def otherOrder : Document :=
  .object [("y", .bool true), ("x", .array [.object [("q", .null),
    ("p", .number (.finite ⟨false, 0, representable_zero⟩))]])]

/-- `{"y": true, "x": [{"p": -0.0, "q": null}]}` -/
def otherZero : Document :=
  .object [("y", .bool true), ("x", .array [.object [
    ("p", .number (.finite ⟨true, 0, representable_zero⟩)), ("q", .null)]])]

theorem wellFormed_inOrder : inOrder.WellFormed := by
  simp [inOrder, Tree.wellFormed_object_iff, Tree.wellFormed_array_iff, Fields.keys,
    Tree.WellFormed.null, Tree.WellFormed.bool, Tree.WellFormed.number]

/-- One object is turned around inside the other, and then the other one. -/
theorem reordered_inOrder : inOrder.Reordered otherOrder := by
  have hinner : inOrder.Reordered (.object [("x", .array [.object [("q", .null),
      ("p", .number (.finite ⟨false, 0, representable_zero⟩))]]), ("y", .bool true)]) :=
    .fill (.field [] "x" [("y", .bool true)]) (.fill (.element [] []) (.fields (.swap _ _ _)))
  exact hinner.trans (.fields (.swap _ _ _))

theorem same_in_other_order :
    inOrder.same otherOrder = true ∧ otherOrder.same inOrder = true ∧
      inOrder.same otherZero = true ∧ inOrder ≠ otherOrder := by
  obtain ⟨hsymm, htrans, -, hreordered⟩ :=
    same_partial_equivalence wellFormed_inOrder otherOrder otherZero
  have hsame := hreordered (by decide) reordered_inOrder
  exact ⟨hsame, hsymm hsame, htrans hsame (by decide), by decide +kernel⟩

end Example

end Document

end DocPath
