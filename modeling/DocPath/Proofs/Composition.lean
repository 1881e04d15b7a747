import DocPath.Proofs.Agreement

/-!
# Walks along joined paths

A walk along two paths, one after the other, is the walk along the first and, if it comes through,
one along the second from where the first has led.  Two things can keep it from coming through: a
fault, and a wildcard.  They act differently on look-ups and on assignments.

For a look-up a wildcard is the end: what comes behind it is not looked at, and what the look-up has
come to, an array or a fault, is the answer (`get_append_of_mem`).  Without a wildcard the look-up
goes on, from a null that stands for a missing field as from any node (`get_append_of_not_mem`).
`getAt_append` says both in one equation.

For an assignment a wildcard is a fault like any other, and the first fault decides: behind a part
of the path that fails nothing is looked at (`graft_append_of_fault`).  So an assignment through a
wildcard always fails, but it fails with the wildcard only if the walk reaches it.
`setAt_of_mem_wildcard` says exactly when: the segments before the first wildcard lead to a node in
a look-up, and apply no name to a null that is there.  A mismatch before the wildcard hides it
(`setAt_hides_wildcard`).
-/

namespace DocPath

namespace Tree

variable {ν : Type} {s : Segment} {p : Path} {t v : Tree ν} {fault : Fault}

/-! ## 1. Look-ups -/

/-- A look-up ends at the first wildcard, whatever comes behind it. -/
theorem get_append_of_mem (h : .wildcard ∈ p) (t : Tree ν) (q : Path) :
    t.get (p ++ q) = t.get p := by
  induction p generalizing t with
  | nil => cases h
  | cons s rest ih =>
    rw [List.cons_append, get, get]
    cases t.child s with
    | error fault => rfl
    | ok u =>
      by_cases hs : s = .wildcard
      · simp only [hs, ↓reduceIte]
      · have hrest : .wildcard ∈ rest := (List.mem_cons.1 h).resolve_left fun e => hs e.symm
        simp only [hs, ↓reduceIte, ih hrest]

/-- Without a wildcard a look-up goes on from the node that it has come to, or keeps its fault. -/
theorem get_append_of_not_mem (h : .wildcard ∉ p) (t : Tree ν) (q : Path) :
    t.get (p ++ q) = (t.get p).bind fun u => u.get q := by
  induction p generalizing t with
  | nil => rfl
  | cons s rest ih =>
    obtain ⟨hs, hrest⟩ := not_or.1 (mt List.mem_cons.2 h)
    rw [List.cons_append, get, get]
    cases t.child s with
    | error fault => rfl
    | ok u =>
      have hs' : s ≠ .wildcard := fun e => hs e.symm
      simp only [hs', ↓reduceIte, ih hrest]

/-- **Look-ups compose.**  If the first of two paths holds a wildcard, a look-up along both comes to
what a look-up along the first comes to.  Otherwise it goes on with the second path from the node
that the first leads to, and if the first leads to none it fails with the same fault.  Either way a
failure names the whole path. -/
theorem getAt_append (t : Tree ν) (p q : Path) (name : String) :
    t.getAt ⟨p ++ q, name⟩ =
      (if .wildcard ∈ p then t.get p else (t.get p).bind fun u => u.get q).mapError
        (.walk name) := by
  rw [getAt_eq_mapError]
  by_cases h : .wildcard ∈ p
  · rw [if_pos h, get_append_of_mem h]
  · rw [if_neg h, get_append_of_not_mem h]

/-- A missing field is passed as a null, and a field that is null as well. -/
example :
    (object [("a", null)] : Tree Unit).get ([.key "a", .key "x"] ++ [.index 0]) =
        .error (.notArray .null) ∧
      (object [] : Tree Unit).get ([.key "a", .key "x"] ++ [.index 0]) =
        .error (.notArray .null) := ⟨rfl, rfl⟩

/-! ## 2. Assignments -/

/-- An assignment that fails on the way does not look at the rest of the path. -/
theorem graft_append_of_fault (h : (graft v t p).fault? = some fault) (q : Path) :
    graft v t (p ++ q) = graft v t p := by
  induction p generalizing t with
  | nil => cases h
  | cons s rest ih =>
    rw [List.cons_append]
    cases hs : t.slot s with
    | error fault => rw [graft_cons_of_slot_error hs, graft_cons_of_slot_error hs]
    | ok u =>
      rw [graft_cons_of_slot hs] at h
      rw [graft_cons_of_slot hs, graft_cons_of_slot hs, ih h]

/-- An assignment that comes through to a wildcard fails there. -/
theorem graft_append_wildcard (h : (graft v t p).fault? = none) (q : Path) :
    (graft v t (p ++ .wildcard :: q)).fault? = some .wildcard := by
  induction p generalizing t with
  | nil => rfl
  | cons s rest ih =>
    obtain ⟨u, hu, hrest⟩ := slot_of_graft_cons h
    rw [List.cons_append, graft_cons_of_slot hu]
    exact ih hrest

/-- Only a wildcard is refused as one. -/
theorem eq_wildcard_of_slot (h : t.slot s = .error .wildcard) : s = .wildcard := by
  cases s with
  | key name => cases t <;> cases h
  | index place =>
    cases t with
    | array items =>
      rw [slot] at h
      split at h <;> cases h
    | null | bool _ | number _ | string _ | object _ => cases h
  | wildcard => rfl

/-- Without a wildcard no assignment fails with one. -/
theorem graft_fault?_ne_wildcard (h : .wildcard ∉ p) (v t : Tree ν) :
    (graft v t p).fault? ≠ some .wildcard := by
  induction p generalizing t with
  | nil =>
    intro hfault
    cases hfault
  | cons s rest ih =>
    obtain ⟨hs, hrest⟩ := not_or.1 (mt List.mem_cons.2 h)
    cases hslot : t.slot s with
    | error fault =>
      rw [graft_cons_of_slot_error hslot]
      intro hfault
      have hwild : fault = .wildcard := Option.some.inj hfault
      rw [hwild] at hslot
      exact hs (eq_wildcard_of_slot hslot).symm
    | ok u =>
      rw [graft_cons_of_slot hslot]
      exact ih hrest u

end Tree

/-! ## 3. Assignments through a wildcard -/

/-- The segments before the first wildcard. -/
def Path.untilWildcard (p : Path) : Path := p.takeWhile (· ≠ .wildcard)

theorem Path.wildcard_not_mem_untilWildcard (p : Path) : .wildcard ∉ p.untilWildcard := by
  intro h
  have hall : p.untilWildcard.all (· ≠ .wildcard) = true := List.all_takeWhile
  simpa using List.all_eq_true.1 hall _ h

/-- A path with a wildcard goes on with it behind the segments before it. -/
theorem Path.exists_untilWildcard {p : Path} (h : .wildcard ∈ p) :
    ∃ rest, p = p.untilWildcard ++ .wildcard :: rest := by
  induction p with
  | nil => cases h
  | cons s p ih =>
    by_cases hs : s = .wildcard
    · exact ⟨p, by simp [untilWildcard, hs]⟩
    · obtain ⟨rest, hrest⟩ := ih ((List.mem_cons.1 h).resolve_left fun e => hs e.symm)
      refine ⟨rest, ?_⟩
      rw [untilWildcard, List.takeWhile_cons_of_pos (by simpa using hs), List.cons_append,
        ← untilWildcard, ← hrest]

namespace Tree

variable {ν : Type}

/-- **An assignment through a wildcard fails, and with the wildcard exactly if the walk reaches
it.**  The walk reaches the first wildcard if and only if a look-up along the segments before it
succeeds and none of them is a name applied to a null that is there.  If the walk does not reach it,
the assignment does what one along these segments alone does, and fails as that one fails. -/
theorem setAt_of_mem_wildcard {a : Address} (h : .wildcard ∈ a.path) (t v : Tree ν) :
    (t.setAt a v).2 ≠ none ∧
      ((t.setAt a v).2 = some (.walk a.name .wildcard) ↔
        (∃ u, t.get a.path.untilWildcard = .ok u) ∧ t.NoNameOnNull a.path.untilWildcard) ∧
      ((t.setAt a v).2 = some (.walk a.name .wildcard) ∨
        t.setAt a v = t.setAt ⟨a.path.untilWildcard, a.name⟩ v) := by
  have hbefore : .wildcard ∉ a.path.untilWildcard := a.path.wildcard_not_mem_untilWildcard
  obtain ⟨rest, hpath⟩ := Path.exists_untilWildcard h
  rw [setAt_of_ne_nil (List.ne_nil_of_mem h), ← graft_fault?_eq_none_iff v hbefore]
  cases hwalk : (graft v t a.path.untilWildcard).fault? with
  | none =>
    have hfault : (graft v t a.path).fault? = some .wildcard := by
      rw [hpath]
      exact graft_append_wildcard hwalk rest
    simp [hfault]
  | some fault =>
    have hgraft : graft v t a.path = graft v t a.path.untilWildcard := by
      conv_lhs => rw [hpath]
      exact graft_append_of_fault hwalk _
    have hne : fault ≠ .wildcard := by
      rintro rfl
      exact graft_fault?_ne_wildcard hbefore v t hwalk
    have hsome : a.path.untilWildcard ≠ [] := by
      intro hnil
      rw [hnil] at hwalk
      cases hwalk
    rw [setAt_of_ne_nil hsome, hgraft, hwalk]
    simp [hne]

namespace Example

/-- `{"a": "text"}` -/
def labelled : Document := .object [("a", .string "text")]

/-- `x.y[*].z`, whose wildcard is below two names that `labelled` lacks. -/
def belowMissing : Address := .ofText "x.y[*].z"

/-- `a.b[*]`, whose wildcard is behind a name on a text. -/
def behindText : Address := .ofText "a.b[*]"

theorem setAt_reaching_wildcard :
    .wildcard ∈ belowMissing.path ∧
      (labelled.setAt belowMissing null).2 = some (.walk belowMissing.name .wildcard) ∧
      labelled.NoNameOnNull belowMissing.path.untilWildcard := by
  have hmem : .wildcard ∈ belowMissing.path := by decide +kernel
  have hset : (labelled.setAt belowMissing null).2 = some (.walk belowMissing.name .wildcard) := by
    decide +kernel
  obtain ⟨-, hreached, -⟩ := setAt_of_mem_wildcard hmem labelled null
  exact ⟨hmem, hset, (hreached.1 hset).2⟩

/-- What does not fit before a wildcard is reported in its place. -/
theorem setAt_hides_wildcard :
    .wildcard ∈ behindText.path ∧
      (labelled.setAt behindText null).2 = some (.walk behindText.name (.notObject .string)) ∧
      (labelled.setAt behindText null).2 ≠ some (.walk behindText.name .wildcard) := by
  decide +kernel

end Example

end Tree

end DocPath
