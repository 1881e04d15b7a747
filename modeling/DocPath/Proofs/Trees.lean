import DocPath.Document

/-!
# Trees, node by node

What proofs about whole trees stand on: an induction principle that asks for arrays and objects no
more than the elements and the values of the fields (`Tree.induct`), the numbers of a tree in the
order of the document (`Tree.numbers`), and the laws of replacing numbers by trees (`Tree.bind`).
Replacing numbers by leaves changes no name, no order and no depth.
-/

namespace DocPath.Tree

variable {ν μ κ : Type}

/-! ## 1. Induction -/

/-- What holds of a node as soon as it holds of the nodes right below it holds of every tree. -/
@[elab_as_elim]
theorem induct {motive : Tree ν → Prop} (null : motive null) (bool : ∀ b, motive (bool b))
    (number : ∀ x, motive (number x)) (string : ∀ s, motive (string s))
    (array : ∀ items, (∀ t ∈ items, motive t) → motive (array items))
    (object : ∀ fields, (∀ field ∈ fields, motive field.2) → motive (object fields))
    (t : Tree ν) : motive t := by
  refine @Tree.rec ν motive (fun items => ∀ t ∈ items, motive t)
    (fun fields => ∀ field ∈ fields, motive field.2) (fun field => motive field.2)
    null bool number string array object ?_ ?_ ?_ ?_ ?_ t
  · exact fun _ h => nomatch h
  · exact fun t items ht hitems => List.forall_mem_cons.2 ⟨ht, hitems⟩
  · exact fun _ h => nomatch h
  · exact fun field fields hfield hfields => List.forall_mem_cons.2 ⟨hfield, hfields⟩
  · exact fun _ _ ht => ht

/-! ## 2. Numbers -/

mutual

/-- The numbers of the tree, in the order in which they stand. -/
def numbers : Tree ν → List ν
  | null => []
  | bool _ => []
  | number x => [x]
  | string _ => []
  | array items => numbersItems items
  | object fields => numbersFields fields

/-- The numbers of the elements. -/
def numbersItems : List (Tree ν) → List ν
  | [] => []
  | t :: ts => numbers t ++ numbersItems ts

/-- The numbers of the values of the fields. -/
def numbersFields : List (String × Tree ν) → List ν
  | [] => []
  | (_, t) :: fs => numbers t ++ numbersFields fs

end

theorem mem_numbers_array {x : ν} {items : List (Tree ν)} :
    x ∈ (array items).numbers ↔ ∃ t ∈ items, x ∈ t.numbers := by
  rw [numbers]
  induction items with
  | nil => simp [numbersItems]
  | cons t ts ih => simp [numbersItems, ih]

theorem mem_numbers_object {x : ν} {fields : List (String × Tree ν)} :
    x ∈ (object fields).numbers ↔ ∃ field ∈ fields, x ∈ field.2.numbers := by
  rw [numbers]
  induction fields with
  | nil => simp [numbersFields]
  | cons field fs ih => simp [numbersFields, ih]

/-! ## 3. Replacing numbers -/

theorem bind_array (f : ν → Tree μ) (items : List (Tree ν)) :
    (array items).bind f = array (items.map (bind f)) := by
  rw [bind, bindItems_eq_map]

theorem bind_object (f : ν → Tree μ) (fields : List (String × Tree ν)) :
    (object fields).bind f = object (fields.map fun field => (field.1, bind f field.2)) := by
  rw [bind, bindFields_eq_map]

/-- The result depends only on what becomes of the numbers of the tree. -/
theorem bind_congr {f g : ν → Tree μ} {t : Tree ν} (h : ∀ x ∈ t.numbers, f x = g x) :
    t.bind f = t.bind g := by
  induction t using induct with
  | null => rfl
  | bool b => rfl
  | number x => exact h x List.mem_cons_self
  | string s => rfl
  | array items ih =>
    rw [bind_array, bind_array]
    refine congrArg array (List.map_congr_left ?_)
    intro t ht
    refine ih t ht ?_
    intro x hx
    exact h x (mem_numbers_array.2 ⟨t, ht, hx⟩)
  | object fields ih =>
    rw [bind_object, bind_object]
    refine congrArg object (List.map_congr_left ?_)
    intro field hfield
    refine congrArg (Prod.mk field.1) (ih field hfield ?_)
    intro x hx
    exact h x (mem_numbers_object.2 ⟨field, hfield, hx⟩)

/-- Replacing twice is replacing once. -/
theorem bind_bind (f : ν → Tree μ) (g : μ → Tree κ) (t : Tree ν) :
    (t.bind f).bind g = t.bind fun x => (f x).bind g := by
  induction t using induct with
  | null => rfl
  | bool b => rfl
  | number x => rfl
  | string s => rfl
  | array items ih =>
    rw [bind_array, bind_array, bind_array, List.map_map]
    exact congrArg array (List.map_congr_left ih)
  | object fields ih =>
    rw [bind_object, bind_object, bind_object, List.map_map]
    refine congrArg object (List.map_congr_left ?_)
    intro field hfield
    exact congrArg (Prod.mk field.1) (ih field hfield)

/-- Putting every number in the place where it stands changes nothing. -/
theorem bind_number (t : Tree ν) : t.bind number = t := by
  induction t using induct with
  | null => rfl
  | bool b => rfl
  | number x => rfl
  | string s => rfl
  | array items ih =>
    rw [bind_array, List.map_congr_left ih, List.map_id']
  | object fields ih =>
    rw [bind_object, List.map_congr_left fun field hfield =>
      congrArg (Prod.mk field.1) (ih field hfield), List.map_id']

/-- The numbers of the result come from the trees that the numbers are replaced by. -/
theorem mem_numbers_bind {f : ν → Tree μ} {t : Tree ν} {y : μ} (h : y ∈ (t.bind f).numbers) :
    ∃ x ∈ t.numbers, y ∈ (f x).numbers := by
  induction t using induct with
  | null => cases h
  | bool b => cases h
  | number x => exact ⟨x, List.mem_cons_self, h⟩
  | string s => cases h
  | array items ih =>
    rw [bind_array, mem_numbers_array] at h
    obtain ⟨u, hu, hy⟩ := h
    obtain ⟨t, ht, rfl⟩ := List.mem_map.1 hu
    obtain ⟨x, hx, hy⟩ := ih t ht hy
    exact ⟨x, mem_numbers_array.2 ⟨t, ht, hx⟩, hy⟩
  | object fields ih =>
    rw [bind_object, mem_numbers_object] at h
    obtain ⟨u, hu, hy⟩ := h
    obtain ⟨field, hfield, rfl⟩ := List.mem_map.1 hu
    obtain ⟨x, hx, hy⟩ := ih field hfield hy
    exact ⟨x, mem_numbers_object.2 ⟨field, hfield, hx⟩, hy⟩

/-- The depth of the elements is that of the deepest one. -/
theorem depthItems_le_iff {items : List (Tree ν)} {n : Nat} :
    depthItems items ≤ n ↔ ∀ t ∈ items, t.depth ≤ n := by
  induction items with
  | nil => simp [depthItems]
  | cons t ts ih => rw [depthItems, Nat.max_le, ih, List.forall_mem_cons]

/-- The depth of the fields is that of the deepest value. -/
theorem depthFields_le_iff {fields : List (String × Tree ν)} {n : Nat} :
    depthFields fields ≤ n ↔ ∀ field ∈ fields, field.2.depth ≤ n := by
  induction fields with
  | nil => simp [depthFields]
  | cons field fs ih => rw [depthFields, Nat.max_le, ih, List.forall_mem_cons]

theorem exists_of_lt_depthItems {items : List (Tree ν)} {n : Nat} (h : n < depthItems items) :
    ∃ t ∈ items, n < t.depth := by
  refine Decidable.byContradiction fun hnone => ?_
  refine Nat.not_le.2 h (depthItems_le_iff.2 fun t ht => ?_)
  exact Nat.not_lt.1 fun hlt => hnone ⟨t, ht, hlt⟩

theorem exists_of_lt_depthFields {fields : List (String × Tree ν)} {n : Nat}
    (h : n < depthFields fields) : ∃ field ∈ fields, n < field.2.depth := by
  refine Decidable.byContradiction fun hnone => ?_
  refine Nat.not_le.2 h (depthFields_le_iff.2 fun field hfield => ?_)
  exact Nat.not_lt.1 fun hlt => hnone ⟨field, hfield, hlt⟩

theorem depthItems_map {f : Tree ν → Tree μ} {items : List (Tree ν)}
    (h : ∀ t ∈ items, (f t).depth = t.depth) : depthItems (items.map f) = depthItems items := by
  induction items with
  | nil => rfl
  | cons t ts ih =>
    obtain ⟨ht, hts⟩ := List.forall_mem_cons.1 h
    rw [List.map_cons, depthItems, depthItems, ht, ih hts]

theorem depthFields_map {f : Tree ν → Tree μ} {fields : List (String × Tree ν)}
    (h : ∀ field ∈ fields, (f field.2).depth = field.2.depth) :
    depthFields (fields.map fun field => (field.1, f field.2)) = depthFields fields := by
  induction fields with
  | nil => rfl
  | cons field fs ih =>
    obtain ⟨hfield, hfs⟩ := List.forall_mem_cons.1 h
    rw [List.map_cons, depthFields, depthFields, hfield, ih hfs]

/-- Replacing numbers by leaves keeps the depth. -/
theorem depth_bind {f : ν → Tree μ} (hf : ∀ x, (f x).depth = 0) (t : Tree ν) :
    (t.bind f).depth = t.depth := by
  induction t using induct with
  | null => rfl
  | bool b => rfl
  | number x => exact hf x
  | string s => rfl
  | array items ih => rw [bind_array, depth, depth, depthItems_map ih]
  | object fields ih => rw [bind_object, depth, depth, depthFields_map ih]

theorem keys_map (f : Tree ν → Tree μ) (fields : List (String × Tree ν)) :
    Fields.keys (fields.map fun field => (field.1, f field.2)) = Fields.keys fields := by
  simp [Fields.keys]

/-- Replacing numbers by leaves keeps names distinct. -/
theorem WellFormed.bind {f : ν → Tree μ} (hf : ∀ x, (f x).WellFormed) {t : Tree ν}
    (h : t.WellFormed) : (t.bind f).WellFormed := by
  induction h with
  | null => exact .null
  | bool b => exact .bool b
  | number x => exact hf x
  | string s => exact .string s
  | array _ ih =>
    rw [bind_array]
    refine .array ?_
    intro u hu
    obtain ⟨t, ht, rfl⟩ := List.mem_map.1 hu
    exact ih t ht
  | object hnodup _ ih =>
    rw [bind_object]
    refine .object ?_ ?_
    · rwa [keys_map]
    · intro u hu
      obtain ⟨field, hfield, rfl⟩ := List.mem_map.1 hu
      exact ih field hfield

end DocPath.Tree
