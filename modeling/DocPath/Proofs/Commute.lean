import DocPath.Document
import DocPath.Proofs.Frames

/-!
# Independent assignments

Two assignments whose paths part, that is, neither path begins with the other, do not depend on
their order (`setAt_comm`): each succeeds in both orders or fails in both with the same failure,
and the two trees differ in the order of fields at most (`Reordered`).  Nothing is asked of the
segments behind the one where the paths part, and neither assignment has to succeed.

The proof goes along what the paths have in common.  On that part the second walk finds the frames
that the first one has left, whether they were there or made by it (`Independent.step`).  Where the
paths part, the step of one walk neither helps nor hinders that of the other
(`slot_refill_of_ne`), and what they leave is the same, unless both make a field in one object
(`reordered_refill`).
-/

namespace DocPath

/-! ## 1. Paths that part -/

/-- The two paths agree up to a segment where they differ. -/
inductive Path.Parting : Path → Path → Prop where
  /-- They differ at once. -/
  | here {s s' : Segment} (p q : Path) : s ≠ s' → Parting (s :: p) (s' :: q)
  /-- They agree on a segment and part later. -/
  | there (s : Segment) {p q : Path} : Parting p q → Parting (s :: p) (s :: q)

/-- Two paths part if neither begins with the other. -/
theorem Path.parting_of_not_prefix {p q : Path} (hpq : ¬ p <+: q) (hqp : ¬ q <+: p) :
    p.Parting q := by
  induction p generalizing q with
  | nil => exact absurd List.nil_prefix hpq
  | cons s p ih =>
    cases q with
    | nil => exact absurd List.nil_prefix hqp
    | cons s' q =>
      by_cases hs : s = s'
      · subst hs
        rw [List.cons_prefix_cons] at hpq hqp
        exact .there s (ih (fun h => hpq ⟨rfl, h⟩) fun h => hqp ⟨rfl, h⟩)
      · exact .here p q hs

theorem Path.Parting.ne_nil {p q : Path} (h : p.Parting q) : p ≠ [] ∧ q ≠ [] := by
  cases h with
  | here p q _ => exact ⟨List.cons_ne_nil _ _, List.cons_ne_nil _ _⟩
  | there s _ => exact ⟨List.cons_ne_nil _ _, List.cons_ne_nil _ _⟩

namespace Tree

variable {ν : Type} {s s' : Segment} {p q : Path} {t u u' v w : Tree ν}

/-! ## 2. Trees that differ in the order of fields -/

/-- The second tree is the first with the fields of objects, anywhere in it, in another order. -/
inductive Reordered : Tree ν → Tree ν → Prop where
  | refl (t : Tree ν) : Reordered t t
  /-- The fields of one object in another order. -/
  | fields {fs gs : Fields (Tree ν)} : fs.Perm gs → Reordered (object fs) (object gs)
  /-- The change may lie deeper. -/
  | fill (f : Frame ν) {t u : Tree ν} : Reordered t u → Reordered (f.fill t) (f.fill u)
  | trans {t u v : Tree ν} : Reordered t u → Reordered u v → Reordered t v

theorem Reordered.symm (h : Reordered t u) : Reordered u t := by
  induction h with
  | refl t => exact .refl t
  | fields h => exact .fields h.symm
  | fill f _ ih => exact .fill f ih
  | trans _ _ ih₁ ih₂ => exact ih₂.trans ih₁

/-! ## 3. Two steps from one node -/

/-- A step back up leaves every other step down as it was, whether that leads on or fails. -/
theorem slot_refill_of_ne (h : t.slot s = .ok u) (hne : s ≠ s') (w : Tree ν) :
    (t.refill s w).slot s' = t.slot s' := by
  rcases name_or_place_of_slot h with ⟨name, fields, rfl, rfl⟩ | ⟨place, items, rfl, rfl, he⟩
  · cases s' with
    | key other =>
      have hname : name ≠ other := fun e => hne (congrArg Segment.key e)
      simp [refill, slot, Fields.get?_insert, hname]
    | index _ => rfl
    | wildcard => rfl
  · cases s' with
    | key _ => rfl
    | index other =>
      have hplace : place ≠ other := fun e => hne (congrArg Segment.index e)
      simp only [refill, slot, element?_set_ne he hplace, List.length_set]
    | wildcard => rfl

/-- Two different steps back up leave the same in either order, but for the order of two new
fields. -/
theorem reordered_refill (h : t.slot s = .ok u) (h' : t.slot s' = .ok u') (hne : s ≠ s')
    (x y : Tree ν) :
    ((t.refill s x).refill s' y).Reordered ((t.refill s' y).refill s x) := by
  rcases name_or_place_of_slot h with ⟨name, fields, rfl, rfl⟩ | ⟨place, items, rfl, rfl, he⟩
  · rcases name_or_place_of_slot h' with ⟨other, _, rfl, -⟩ | ⟨_, _, -, ht, -⟩
    · have hname : other ≠ name := fun e => hne (congrArg Segment.key e.symm)
      exact .fields (Fields.insert_comm_perm hname y x fields)
    · cases ht
  · rcases name_or_place_of_slot h' with ⟨_, _, -, ht⟩ | ⟨other, _, rfl, ht, he'⟩
    · cases ht
    · cases ht
      obtain ⟨n, hn, -⟩ := element?_eq_some_iff.1 he
      obtain ⟨m, hm, -⟩ := element?_eq_some_iff.1 he'
      have hplace : place.toInt ≠ other.toInt := fun e => hne (congrArg _ (Int64.toInt_inj.1 e))
      have hnat : place.toInt.toNat ≠ other.toInt.toNat := by omega
      simp only [refill]
      rw [List.set_comm x y hnat]
      exact .refl _

/-! ## 4. Two walks -/

/-- The outcome of either walk is the same before and after the other, and the trees that the two
orders leave differ in the order of fields at most. -/
structure Independent (v w t : Tree ν) (p q : Path) : Prop where
  first : (graft v (graft w t q).tree p).fault? = (graft v t p).fault?
  second : (graft w (graft v t p).tree q).fault? = (graft w t q).fault?
  trees : (graft w (graft v t p).tree q).tree.Reordered (graft v (graft w t q).tree p).tree

theorem Independent.symm (h : Independent v w t p q) : Independent w v t q p :=
  ⟨h.second, h.first, h.trees.symm⟩

/-- Walks that begin with the same step are independent if they are independent below it. -/
theorem Independent.step (hs : t.slot s = .ok u) (h : Independent v w u p q) :
    Independent v w t (s :: p) (s :: q) := by
  obtain ⟨f, hf, hrefill, -⟩ := exists_frame_of_slot hs
  have walk (x : Tree ν) (r : Path) :
      graft x t (s :: r) = ⟨f.fill (graft x u r).tree, (graft x u r).fault?⟩ := by
    rw [graft_cons_of_slot hs, hrefill]
  refine ⟨?_, ?_, ?_⟩
  · rw [walk, walk, graft_fill hf]
    exact h.first
  · rw [walk, walk, graft_fill hf]
    exact h.second
  · rw [walk, walk, graft_fill hf, graft_fill hf]
    exact h.trees.fill f

/-- A walk whose first step fails is independent of one that begins with another step. -/
theorem independent_of_slot_error {fault : Fault} (hne : s ≠ s') (hs : t.slot s = .error fault)
    (v w : Tree ν) (p q : Path) : Independent v w t (s :: p) (s' :: q) := by
  have hstuck : graft v (graft w t (s' :: q)).tree (s :: p) =
      ⟨(graft w t (s' :: q)).tree, some fault⟩ := by
    cases hs' : t.slot s' with
    | error fault' => rw [graft_cons_of_slot_error hs', graft_cons_of_slot_error hs]
    | ok u' =>
      rw [graft_cons_of_slot hs', graft_cons_of_slot_error]
      rw [slot_refill_of_ne hs' hne.symm, hs]
  have hstop : graft v t (s :: p) = ⟨t, some fault⟩ := graft_cons_of_slot_error hs p
  refine ⟨?_, ?_, ?_⟩
  · rw [hstuck, hstop]
  · rw [hstop]
  · rw [hstuck, hstop]
    exact .refl _

/-- Walks that begin with different steps are independent. -/
theorem independent_of_ne (hne : s ≠ s') (v w t : Tree ν) (p q : Path) :
    Independent v w t (s :: p) (s' :: q) := by
  cases hs : t.slot s with
  | error fault => exact independent_of_slot_error hne hs v w p q
  | ok u =>
    cases hs' : t.slot s' with
    | error fault => exact (independent_of_slot_error hne.symm hs' w v q p).symm
    | ok u' =>
      have hback (x : Tree ν) : (t.refill s' x).slot s = .ok u := by
        rw [slot_refill_of_ne hs' hne.symm, hs]
      have hforth (x : Tree ν) : (t.refill s x).slot s' = .ok u' := by
        rw [slot_refill_of_ne hs hne, hs']
      refine ⟨?_, ?_, ?_⟩
      · rw [graft_cons_of_slot hs', graft_cons_of_slot (hback _), graft_cons_of_slot hs]
      · rw [graft_cons_of_slot hs, graft_cons_of_slot (hforth _), graft_cons_of_slot hs']
      · rw [graft_cons_of_slot hs, graft_cons_of_slot (hforth _), graft_cons_of_slot hs',
          graft_cons_of_slot (hback _)]
        exact reordered_refill hs hs' hne _ _

/-- **Walks along paths that part are independent.** -/
theorem independent_of_parting (h : p.Parting q) (v w t : Tree ν) : Independent v w t p q := by
  induction h generalizing t with
  | here p q hne => exact independent_of_ne hne v w t p q
  | @there s p q hpq ih =>
    cases hs : t.slot s with
    | ok u => exact (ih u).step hs
    | error fault =>
      -- both walks stop at their common first step
      have hstop (x : Tree ν) (r : Path) : graft x t (s :: r) = ⟨t, some fault⟩ :=
        graft_cons_of_slot_error hs r
      refine ⟨?_, ?_, ?_⟩
      · rw [hstop, hstop]
      · rw [hstop, hstop]
      · rw [hstop, hstop, hstop]
        exact .refl t

/-! ## 5. Two assignments -/

/-- **Independent assignments commute.**  Where neither path begins with the other, each of the two
assignments succeeds, or fails with the same failure, whether it comes first or second, and the two
orders leave trees that differ in the order of fields at most. -/
theorem setAt_comm {a b : Address} (hab : ¬ a.path <+: b.path) (hba : ¬ b.path <+: a.path)
    (t v w : Tree ν) :
    ((t.setAt b w).1.setAt a v).2 = (t.setAt a v).2 ∧
      ((t.setAt a v).1.setAt b w).2 = (t.setAt b w).2 ∧
      ((t.setAt a v).1.setAt b w).1.Reordered ((t.setAt b w).1.setAt a v).1 := by
  have hparting := Path.parting_of_not_prefix hab hba
  obtain ⟨ha, hb⟩ := hparting.ne_nil
  obtain ⟨hfirst, hsecond, htrees⟩ := independent_of_parting hparting v w t
  simp only [setAt_of_ne_nil ha, setAt_of_ne_nil hb]
  exact ⟨congrArg _ hfirst, congrArg _ hsecond, htrees⟩

/-! ## 6. One assignment fails in what the other completes -/

namespace Example

/-- `{"list": [{}]}` -/
def start : Document := .object [("list", .array [.object []])]

/-- `list[0].a.b.c` -/
def completing : Address := .ofPath [.key "list", .index 0, .key "a", .key "b", .key "c"]

/-- `list[0].a.d[2]`, which fails behind an object of its own. -/
def failing : Address := .ofPath [.key "list", .index 0, .key "a", .key "d", .index 2]

/-- `{"list": [{"a": {"b": {"c": true}, "d": {}}}]}` -/
def completedFirst : Document :=
  .object [("list", .array [.object [("a", .object [("b", .object [("c", .bool true)]),
    ("d", .object [])])]])]

/-- `{"list": [{"a": {"d": {}, "b": {"c": true}}}]}` -/
def failedFirst : Document :=
  .object [("list", .array [.object [("a", .object [("d", .object []),
    ("b", .object [("c", .bool true)])])]])]

theorem setAt_comm_failing :
    ¬ completing.path <+: failing.path ∧ ¬ failing.path <+: completing.path ∧
      (start.setAt failing .null).2 = some (.walk failing.name (.notArray .object)) ∧
      ((start.setAt completing (.bool true)).1.setAt failing .null).2 =
        (start.setAt failing .null).2 ∧
      ((start.setAt failing .null).1.setAt completing (.bool true)).2 =
        (start.setAt completing (.bool true)).2 ∧
      completedFirst ≠ failedFirst ∧ completedFirst.Reordered failedFirst := by
  have hcf : ¬ completing.path <+: failing.path := by decide
  have hfc : ¬ failing.path <+: completing.path := by decide
  have hfails : (start.setAt failing .null).2 =
      some (.walk failing.name (.notArray .object)) := by decide +kernel
  have hforth : ((start.setAt completing (.bool true)).1.setAt failing .null).1 =
      completedFirst := by decide +kernel
  have hback : ((start.setAt failing .null).1.setAt completing (.bool true)).1 =
      failedFirst := by decide +kernel
  obtain ⟨hcompletes, hstill, htrees⟩ := setAt_comm hcf hfc start (.bool true) .null
  rw [hforth, hback] at htrees
  exact ⟨hcf, hfc, hfails, hstill, hcompletes, by decide +kernel, htrees⟩

end Example

end Tree

end DocPath
