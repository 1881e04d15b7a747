/-!
# Fields in order

The fields of an object are a list of names with values.  The order is that in which the names
came to be present: writing to a name that is present changes its value where it stands, a new name
goes last, and removing a name leaves the others in order.  All operations here keep the names
distinct (`nodup_keys_insert`, `nodup_keys_erase`, `nodup_keys_ofList`), and `get?` after each is
told by `get?_insert` and `get?_erase`.
-/

namespace DocPath

/-- Names with values, in order. -/
abbrev Fields (α : Type) := List (String × α)

namespace Fields

variable {α : Type}

/-! ## 1. Operations -/

/-- The names, in order. -/
def keys (fs : Fields α) : List String := fs.map Prod.fst

/-- The value of a name. -/
def get? (key : String) (fs : Fields α) : Option α := fs.lookup key

/-- Gives a name a value: in place where the name is present, and last where it is new. -/
def insert (key : String) (x : α) : Fields α → Fields α
  | [] => [(key, x)]
  | (k, y) :: fs => if k = key then (k, x) :: fs else (k, y) :: insert key x fs

/-- Removes a name. -/
def erase (key : String) (fs : Fields α) : Fields α := fs.eraseP fun field => field.1 == key

/-- The fields that a list of pairs leaves when they are inserted one after the other: a name that
repeats keeps its first place and its last value. -/
def ofList (pairs : List (String × α)) : Fields α :=
  pairs.foldl (fun fs pair => insert pair.1 pair.2 fs) []

/-! ## 2. Looking up -/

@[simp] theorem get?_nil (key : String) : get? key ([] : Fields α) = none := rfl

theorem get?_cons (key k : String) (x : α) (fs : Fields α) :
    get? key ((k, x) :: fs) = if k = key then some x else get? key fs := by
  by_cases h : k = key
  · subst h
    simp [get?]
  · have hne : (key == k) = false := by simpa using fun e : key = k => h e.symm
    simp [get?, List.lookup_cons, hne, h]

/-- A name has a value exactly if it is one of the names. -/
theorem isSome_get?_iff {key : String} {fs : Fields α} : (get? key fs).isSome ↔ key ∈ keys fs := by
  induction fs with
  | nil => simp [keys]
  | cons field fs ih =>
    obtain ⟨k, x⟩ := field
    rw [get?_cons]
    by_cases h : k = key
    · simp [h, keys]
    · simp only [h, ↓reduceIte, ih, keys, List.map_cons, List.mem_cons]
      exact ⟨Or.inr, fun hk => hk.resolve_left fun e => h e.symm⟩

theorem get?_eq_none_iff {key : String} {fs : Fields α} : get? key fs = none ↔ key ∉ keys fs := by
  rw [← isSome_get?_iff]
  cases get? key fs <;> simp

/-! ## 3. Writing -/

/-- The value written is there, and the other names keep theirs. -/
theorem get?_insert (key k : String) (x : α) (fs : Fields α) :
    get? key (insert k x fs) = if k = key then some x else get? key fs := by
  induction fs with
  | nil => simp [insert, get?_cons]
  | cons field fs ih =>
    obtain ⟨l, y⟩ := field
    by_cases hl : l = k
    · subst hl
      simp only [insert, ↓reduceIte, get?_cons]
      split <;> rfl
    · simp only [insert, hl, ↓reduceIte, get?_cons, ih]
      by_cases hk : l = key
      · have hkk : ¬ k = key := fun e => hl (hk.trans e.symm)
        simp [hk, hkk]
      · simp [hk]

/-- Writing moves no name, and a new name goes last. -/
theorem keys_insert (key : String) (x : α) (fs : Fields α) :
    keys (insert key x fs) = if key ∈ keys fs then keys fs else keys fs ++ [key] := by
  induction fs with
  | nil => simp [insert, keys]
  | cons field fs ih =>
    obtain ⟨k, y⟩ := field
    by_cases h : k = key
    · simp [insert, h, keys]
    · have hne : ¬ key = k := fun e => h e.symm
      have ih' : keys (insert key x fs)
          = if key ∈ keys fs then keys fs else keys fs ++ [key] := ih
      simp only [insert, h, ↓reduceIte]
      change k :: keys (insert key x fs) = if key ∈ k :: keys fs then k :: keys fs
        else k :: keys fs ++ [key]
      rw [ih']
      by_cases hm : key ∈ keys fs <;> simp [hm, hne]

/-- Names that are distinct stay so. -/
theorem nodup_keys_insert {key : String} {x : α} {fs : Fields α} (h : (keys fs).Nodup) :
    (keys (insert key x fs)).Nodup := by
  rw [keys_insert]
  split
  · exact h
  · next hm =>
    rw [List.nodup_append]
    refine ⟨h, by simp, ?_⟩
    intro a ha b hb hab
    rw [List.mem_singleton] at hb
    exact hm (hb ▸ hab ▸ ha)

/-- The names of collected pairs are distinct. -/
theorem nodup_keys_ofList (pairs : List (String × α)) : (keys (ofList pairs)).Nodup := by
  have run : ∀ (pairs : List (String × α)) (fs : Fields α), (keys fs).Nodup →
      (keys (pairs.foldl (fun fs pair => insert pair.1 pair.2 fs) fs)).Nodup := by
    intro pairs
    induction pairs with
    | nil => exact fun _ h => h
    | cons pair pairs ih => exact fun fs h => ih _ (nodup_keys_insert h)
  exact run pairs [] (by simp [keys])

/-! ## 4. Removing -/

/-- The other names keep their order. -/
theorem keys_erase (key : String) (fs : Fields α) : keys (erase key fs) = (keys fs).erase key := by
  induction fs with
  | nil => rfl
  | cons field fs ih =>
    obtain ⟨k, y⟩ := field
    by_cases h : k = key
    · simp [erase, keys, h]
    · simp only [erase, keys, List.map_cons] at ih ⊢
      simp [h, ih]

/-- The name removed has no value, and the other names keep theirs. -/
theorem get?_erase {fs : Fields α} (h : (keys fs).Nodup) (key k : String) :
    get? key (erase k fs) = if k = key then none else get? key fs := by
  induction fs with
  | nil => simp [erase]
  | cons field fs ih =>
    obtain ⟨l, y⟩ := field
    obtain ⟨hl, hfs⟩ := List.nodup_cons.1 (show (l :: keys fs).Nodup from h)
    by_cases hk : l = k
    · subst hk
      have here : erase l ((l, y) :: fs) = fs := by simp [erase]
      rw [here, get?_cons]
      split
      · next e => exact get?_eq_none_iff.2 (e ▸ hl)
      · rfl
    · have there : erase k ((l, y) :: fs) = (l, y) :: erase k fs := by simp [erase, hk]
      rw [there, get?_cons, get?_cons, ih hfs]
      by_cases e : l = key
      · have hkk : ¬ k = key := fun e' => hk (e.trans e'.symm)
        simp [e, hkk]
      · simp [e]

/-- Names that are distinct stay so. -/
theorem nodup_keys_erase {key : String} {fs : Fields α} (h : (keys fs).Nodup) :
    (keys (erase key fs)).Nodup := by
  rw [keys_erase]
  exact h.erase key

end Fields

end DocPath
