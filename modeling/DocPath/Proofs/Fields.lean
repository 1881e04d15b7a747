import DocPath.Fields.Basic

/-!
# Fields and their places

Writing to fields, seen place by place: a name that is present is written to where it first stands
(`insert_append`), a name that is not goes last (`insert_of_not_mem`), and a name that has a value
stands somewhere with that value (`exists_append_of_get?`).  Where the names are distinct it stands
nowhere else (`get?_of_mem`).  Writing to two different names leaves the same fields in either
order, and in the same places unless both names are new (`insert_comm_perm`).
-/

namespace DocPath.Fields

variable {α : Type} {key : String} {fs : Fields α}

/-! ## 1. Where a name is written to -/

/-- A name that is new goes last. -/
theorem insert_of_not_mem (h : key ∉ keys fs) (x : α) : insert key x fs = fs ++ [(key, x)] := by
  induction fs with
  | nil => rfl
  | cons field fs ih =>
    obtain ⟨k, y⟩ := field
    obtain ⟨hk, hfs⟩ := not_or.1 (mt List.mem_cons.2 (show key ∉ k :: keys fs from h))
    rw [insert, if_neg fun e => hk e.symm, ih hfs]
    rfl

/-- A name is written to where it first stands, and all around it stays. -/
theorem insert_append {before : Fields α} (h : key ∉ keys before) (x y : α) (after : Fields α) :
    insert key y (before ++ (key, x) :: after) = before ++ (key, y) :: after := by
  induction before with
  | nil => simp [insert]
  | cons field before ih =>
    obtain ⟨k, z⟩ := field
    obtain ⟨hk, hbefore⟩ := not_or.1 (mt List.mem_cons.2 (show key ∉ k :: keys before from h))
    rw [List.cons_append, insert, if_neg fun e => hk e.symm, ih hbefore]
    rfl

/-- Writing to two different names in either order leaves the same fields. -/
theorem insert_comm_perm {k l : String} (h : k ≠ l) (x y : α) (fs : Fields α) :
    (insert k x (insert l y fs)).Perm (insert l y (insert k x fs)) := by
  have h' : l ≠ k := fun e => h e.symm
  induction fs with
  | nil =>
    -- both names are new: the one written first stands first
    simp only [insert, h, h', ↓reduceIte]
    exact List.Perm.swap _ _ _
  | cons field fs ih =>
    obtain ⟨m, z⟩ := field
    by_cases hk : m = k
    · subst hk
      simp [insert, h]
    · by_cases hl : m = l
      · subst hl
        simp [insert, h']
      · simp only [insert, hk, hl, ↓reduceIte]
        exact ih.cons _

/-! ## 2. Where a name is found -/

theorem get?_append (key : String) (fs gs : Fields α) :
    get? key (fs ++ gs) = (get? key fs).or (get? key gs) := List.lookup_append

/-- A name is found where it first stands. -/
theorem get?_append_cons {before : Fields α} (h : key ∉ keys before) (x : α) (after : Fields α) :
    get? key (before ++ (key, x) :: after) = some x := by
  rw [get?_append, get?_eq_none_iff.2 h, get?_cons, if_pos rfl, Option.none_or]

/-- A name that has a value stands somewhere with that value, and not before. -/
theorem exists_append_of_get? {x : α} (h : get? key fs = some x) :
    ∃ before after, fs = before ++ (key, x) :: after ∧ key ∉ keys before := by
  obtain ⟨before, after, rfl, hbefore⟩ := List.lookup_eq_some_iff.1 h
  refine ⟨before, after, rfl, ?_⟩
  intro hmem
  obtain ⟨field, hfield, hkey⟩ := List.mem_map.1 hmem
  simpa [hkey] using hbefore field hfield

theorem mem_of_get? {x : α} (h : get? key fs = some x) : (key, x) ∈ fs := by
  obtain ⟨before, after, rfl, -⟩ := exists_append_of_get? h
  exact List.mem_append_right before List.mem_cons_self

/-- Among distinct names none stands twice. -/
theorem not_mem_of_nodup {before after : Fields α} {x : α}
    (h : (keys (before ++ (key, x) :: after)).Nodup) : key ∉ keys before := by
  intro hkey
  rw [keys, List.map_append] at h
  exact (List.nodup_append.1 h).2.2 key hkey key List.mem_cons_self rfl

/-- Among distinct names every field is found by its name. -/
theorem get?_of_mem {x : α} (hnodup : (keys fs).Nodup) (h : (key, x) ∈ fs) :
    get? key fs = some x := by
  obtain ⟨before, after, rfl⟩ := List.append_of_mem h
  exact get?_append_cons (not_mem_of_nodup hnodup) x after

end DocPath.Fields
