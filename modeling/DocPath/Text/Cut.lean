/-!
# Cutting a text at a character

`cut? c cs` cuts `cs` at the first `c` into the text before it and the text after it.  Two lemmas
describe it completely: `cut?_eq_some_iff` says that the two halves and the character make up the
text, with no `c` in the first half, and `cut?_eq_none_iff` that only a text without `c` cannot be
cut.

A text that is cut at every `c` is its first part and, behind the first `c`, a shorter text
(`splitOn_join`).  What holds of every text is therefore shown of the texts without `c`, and of such
a text joined by `c` to one of which it holds (`induct_join`).
-/

namespace DocPath.Text

/-! ## 1. The first cut -/

/-- The text before the first `c` and the text after it. -/
def cut? (c : Char) (cs : List Char) : Option (List Char × List Char) :=
  match cs.dropWhile (· != c) with
  | [] => none
  | _ :: after => some (cs.takeWhile (· != c), after)

@[simp] theorem cut?_nil (c : Char) : cut? c [] = none := rfl

/-- A text is cut at its first character or behind it. -/
theorem cut?_cons (c d : Char) (ds : List Char) :
    cut? c (d :: ds) =
      if d = c then some ([], ds) else (cut? c ds).map fun halves => (d :: halves.1, halves.2) := by
  by_cases h : d = c
  · simp [cut?, h]
  · simp only [cut?, List.dropWhile_cons, List.takeWhile_cons, bne_iff_ne, ne_eq, h,
      not_false_eq_true, ↓reduceIte]
    split <;> rfl

/-- The halves around the first `c` are a text without `c` and whatever comes after. -/
theorem cut?_eq_some_iff {c : Char} {cs before after : List Char} :
    cut? c cs = some (before, after) ↔ cs = before ++ c :: after ∧ c ∉ before := by
  induction cs generalizing before with
  | nil => simp
  | cons d ds ih =>
    by_cases h : d = c
    · subst h
      cases before with
      | nil => simp [cut?_cons, eq_comm]
      | cons b bs =>
        simp only [cut?_cons, ↓reduceIte, Option.some.injEq, Prod.mk.injEq, reduceCtorEq, false_and,
          List.cons_append, List.cons.injEq, List.mem_cons, not_or, false_iff, not_and]
        rintro ⟨rfl, _⟩ hb
        exact absurd rfl hb
    · cases before with
      | nil => simp [cut?_cons, h]
      | cons b bs =>
        simp only [cut?_cons, h, ↓reduceIte, Option.map_eq_some_iff, Prod.exists, Prod.mk.injEq,
          List.cons.injEq, List.cons_append, List.mem_cons, not_or]
        constructor
        · rintro ⟨x, y, hxy, ⟨rfl, rfl⟩, rfl⟩
          exact ⟨⟨rfl, (ih.1 hxy).1⟩, fun hc => h hc.symm, (ih.1 hxy).2⟩
        · rintro ⟨⟨rfl, hds⟩, _, hbs⟩
          exact ⟨bs, after, ih.2 ⟨hds, hbs⟩, ⟨rfl, rfl⟩, rfl⟩

/-- A text cannot be cut at a character that it does not hold. -/
theorem cut?_eq_none_iff {c : Char} {cs : List Char} : cut? c cs = none ↔ c ∉ cs := by
  induction cs with
  | nil => simp
  | cons d ds ih =>
    by_cases h : d = c
    · simp [cut?_cons, h]
    · simp only [cut?_cons, h, ↓reduceIte, Option.map_eq_none_iff, ih, List.mem_cons, not_or,
        iff_and_self]
      exact fun _ hc => h hc.symm

/-- What comes after the cut is shorter than the text. -/
theorem length_lt_of_cut? {c : Char} {cs before after : List Char}
    (h : cut? c cs = some (before, after)) : after.length < cs.length := by
  rw [(cut?_eq_some_iff.1 h).1]
  simp only [List.length_append, List.length_cons]
  omega

/-! ## 2. All cuts -/

/-- Every text is one without `c`, or such a text joined by `c` to a shorter one. -/
@[elab_as_elim]
theorem induct_join {c : Char} {motive : List Char → Prop}
    (single : ∀ as, c ∉ as → motive as)
    (join : ∀ as bs, c ∉ as → motive bs → motive (as ++ c :: bs)) (cs : List Char) :
    motive cs := by
  cases hcut : cut? c cs with
  | none => exact single cs (cut?_eq_none_iff.1 hcut)
  | some halves =>
    obtain ⟨as, bs⟩ := halves
    obtain ⟨hcs, has⟩ := cut?_eq_some_iff.1 hcut
    rw [hcs]
    exact join as bs has (induct_join single join bs)
termination_by cs.length
decreasing_by exact length_lt_of_cut? hcut

/-- A text without `c` comes first among the parts of a text that goes on with `c`. -/
theorem splitOn_join {c : Char} {as : List Char} (h : c ∉ as) (bs : List Char) :
    (as ++ c :: bs).splitOn c = as :: bs.splitOn c := by
  have hparts : (as ++ c :: bs).splitOn c = as.splitOn c ++ bs.splitOn c :=
    List.splitOnP_append_cons as bs (beq_self_eq_true c)
  rw [hparts, List.splitOn_eq_singleton h, List.singleton_append]

/-- Splitting a text at a character leaves that character in no part. -/
theorem not_mem_of_mem_splitOn {c : Char} {cs part : List Char} (h : part ∈ cs.splitOn c) :
    c ∉ part := by
  induction cs using induct_join (c := c) with
  | single as has =>
    rw [List.splitOn_eq_singleton has, List.mem_singleton] at h
    rwa [h]
  | join as bs has ih =>
    rw [splitOn_join has] at h
    rcases List.mem_cons.1 h with rfl | h
    · exact has
    · exact ih h

end DocPath.Text
