import DocPath.Document
import DocPath.Proofs.Frames

/-!
# Where look-ups and assignments agree

A look-up and an assignment along the same path take the same steps as long as the nodes are there
(`child_fill`, `slot_fill`), and then they fail alike: a node that a segment cannot be applied to
stops both, with the same fault (`slot_of_child_error`).  They differ in what they make of nothing.
Where an object lacks a name, the look-up goes on from null and the assignment from an empty object,
and both of these let names through and nothing else (`graft_object_nil_fault?`).  But a null that
is there answers a name to the look-up and refuses it to the assignment.

That is the only difference between the paths the two can take (`setAt_eq_none_iff_getAt`): without
wildcards, an assignment succeeds exactly where a look-up does and no name of the path is applied to
a null that is there (`NoNameOnNull`).
-/

namespace DocPath.Tree

variable {ν : Type} {s : Segment} {p rest : Path} {f : Frame ν} {t u v x : Tree ν}

/-! ## 1. Nodes that are there -/

theorem leads_nil_iff : Leads [] t x ↔ t = x := by
  constructor
  · rintro ⟨c, hc, ht, -⟩
    cases hc
    exact ht
  · rintro rfl
    exact .here t t

/-- A path with a segment leads through a gap of the root. -/
theorem leads_cons_iff :
    Leads (s :: p) t x ↔ ∃ (f : Frame ν) (u : Tree ν), s.Into f ∧ t = f.fill u ∧ Leads p u x := by
  constructor
  · rintro ⟨c, hc, ht, -⟩
    cases hc with
    | @cons _ f _ c hf hc => exact ⟨f, Frames.fill c x, hf, ht, c, hc, rfl, rfl⟩
  · rintro ⟨f, u, hf, rfl, hu⟩
    exact hu.step hf

/-- A segment that leads into a gap leads to what is in it. -/
theorem eq_of_fill_eq_fill {g : Frame ν} (hf : s.Into f) (hg : s.Into g)
    (h : f.fill t = g.fill u) : t = u := by
  have hslot := slot_fill hf t
  rw [h, slot_fill hg u] at hslot
  exact (Except.ok.inj hslot).symm

/-- No gap of an object is at a name that the object lacks. -/
theorem ne_fill_of_not_mem {name : String} {fields : Fields (Tree ν)} (h : name ∉ fields.keys)
    (hf : (Segment.key name).Into f) (t : Tree ν) : object fields ≠ f.fill t := by
  intro heq
  cases hf with
  | key _ =>
    rw [Frame.fill, object.injEq] at heq
    simp [heq, Fields.keys] at h

theorem fill_ne_null (f : Frame ν) (t : Tree ν) : f.fill t ≠ null := by
  cases f <;> simp [Frame.fill]

/-! ## 2. Steps that both can take, and steps that neither can -/

/-- The step of a look-up leads to what is in the gap. -/
theorem child_fill (hf : s.Into f) (t : Tree ν) : (f.fill t).child s = .ok t := by
  cases hf with
  | key hname => simp only [Frame.fill, child, Fields.get?_append_cons hname, Option.getD_some]
  | @index before after place hplace =>
    have he : element? (before ++ t :: after) place = some t :=
      element?_eq_some_iff.2 ⟨before.length, hplace, by simp⟩
    simp only [Frame.fill, child, he]

/-- A segment into a gap is no wildcard. -/
theorem ne_wildcard_of_into (hf : s.Into f) : s ≠ .wildcard := by
  rintro rfl
  cases hf

/-- What stops a look-up stops an assignment, with the same fault. -/
theorem slot_of_child_error {fault : Fault} (hs : s ≠ .wildcard) (h : t.child s = .error fault) :
    t.slot s = .error fault := by
  cases s with
  | key name =>
    cases t with
    | null | object _ => cases h
    | bool _ | number _ | string _ | array _ => exact h
  | index place => cases t <;> exact h
  | wildcard => exact absurd rfl hs

/-- What stops an assignment stops a look-up, with the same fault, but for a name on null. -/
theorem child_of_slot_error {fault : Fault} (hs : s ≠ .wildcard) (h : t.slot s = .error fault) :
    t.child s = .error fault ∨ t = null ∧ ∃ name, s = .key name := by
  cases s with
  | key name =>
    cases t with
    | null => exact .inr ⟨rfl, name, rfl⟩
    | object _ => cases h
    | bool _ | number _ | string _ | array _ => exact .inl h
  | index place => cases t <;> exact .inl h
  | wildcard => exact absurd rfl hs

/-! ## 3. Below what is not there -/

theorem get_null_map_key (names : List String) (rest : Path) :
    (null : Tree ν).get (names.map .key ++ rest) = null.get rest := by
  induction names with
  | nil => rfl
  | cons name names ih =>
    rw [List.map_cons, List.cons_append, get_cons_of_child (u := null) (by simp) rfl, ih]

/-- Below an object that was made an assignment succeeds exactly where a look-up succeeds below
null. -/
theorem graft_object_nil_fault? (v : Tree ν) (hp : .wildcard ∉ p) :
    (graft v (object []) p).fault? = none ↔ ∃ u, (null : Tree ν).get p = .ok u := by
  rcases graft_object_nil v p with ⟨names, rfl, hg⟩ | ⟨names, s, rest, fault, rfl, hs, hg⟩
  · rw [hg, ← List.append_nil (names.map Segment.key), get_null_map_key]
    simp [get]
  · rw [hg, get_null_map_key]
    cases hs with
    | index place => simp [get, child]
    | wildcard => simp at hp

/-! ## 4. Names on null -/

/-- No name of the path is applied to a null that is there: the root, the value of a field, or an
element. -/
def NoNameOnNull (t : Tree ν) (p : Path) : Prop :=
  ∀ before name after, p = before ++ .key name :: after → ¬ Leads before t null

theorem noNameOnNull_nil (t : Tree ν) : t.NoNameOnNull [] := by
  intro before name after h
  simp at h

theorem noNameOnNull_cons_iff :
    t.NoNameOnNull (s :: p) ↔
      (∀ name, s = .key name → t ≠ null) ∧
        ∀ (f : Frame ν) (u : Tree ν), s.Into f → t = f.fill u → u.NoNameOnNull p := by
  constructor
  · intro h
    refine ⟨?_, ?_⟩
    · rintro name rfl ht
      exact h [] name p rfl (leads_nil_iff.2 ht)
    · rintro f u hf rfl before name after rfl hl
      exact h (s :: before) name after rfl (hl.step hf)
  · rintro ⟨hroot, hbelow⟩ before name after heq hl
    cases before with
    | nil =>
      obtain ⟨rfl, -⟩ := List.cons.inj heq
      exact hroot name rfl (leads_nil_iff.1 hl)
    | cons s' before =>
      obtain ⟨rfl, rfl⟩ := List.cons.inj heq
      obtain ⟨f, u, hf, ht, hl⟩ := leads_cons_iff.1 hl
      exact hbelow f u hf ht before name after rfl hl

/-- In a gap it comes down to what is in the gap. -/
theorem noNameOnNull_fill_iff (hf : s.Into f) :
    (f.fill u).NoNameOnNull (s :: p) ↔ u.NoNameOnNull p := by
  rw [noNameOnNull_cons_iff]
  constructor
  · rintro ⟨-, h⟩
    exact h f u hf rfl
  · intro h
    refine ⟨fun _ _ => fill_ne_null f u, ?_⟩
    intro g w hg heq
    rwa [← eq_of_fill_eq_fill hf hg heq]

/-- Nothing below a name that an object lacks is there. -/
theorem noNameOnNull_of_not_mem {name : String} {fields : Fields (Tree ν)}
    (h : name ∉ fields.keys) (p : Path) : (object fields).NoNameOnNull (.key name :: p) := by
  refine noNameOnNull_cons_iff.2 ⟨by simp, ?_⟩
  intro f u hf heq
  exact absurd heq (ne_fill_of_not_mem h hf u)

/-! ## 5. Whole walks -/

/-- **Where an assignment can walk.**  Along a path without wildcards it succeeds exactly where a
look-up succeeds and applies no name to a null that is there. -/
theorem graft_fault?_eq_none_iff (v : Tree ν) (hp : .wildcard ∉ p) :
    (graft v t p).fault? = none ↔ (∃ u, t.get p = .ok u) ∧ t.NoNameOnNull p := by
  induction p generalizing t with
  | nil => simp [graft, get, noNameOnNull_nil]
  | cons s rest ih =>
    obtain ⟨hs, hrest⟩ := not_or.1 (mt List.mem_cons.2 hp)
    have hs' : s ≠ .wildcard := fun e => hs e.symm
    cases hslot : t.slot s with
    | error fault =>
      rw [graft_cons_of_slot_error hslot]
      rcases child_of_slot_error hs' hslot with hchild | ⟨rfl, name, rfl⟩
      · simp [get, hchild]
      · simp [noNameOnNull_cons_iff]
    | ok u =>
      obtain ⟨f, hf, -, hcase⟩ := exists_frame_of_slot hslot
      rcases hcase with rfl | ⟨name, fields, rfl, rfl, hname, rfl, -⟩
      · rw [graft_fill hf, get_cons_of_child hs' (child_fill hf u), noNameOnNull_fill_iff hf]
        exact ih hrest
      -- the object lacks the name
      · have hchild : (object fields).child (.key name) = .ok null := by
          simp [child, Fields.get?_eq_none_iff.2 hname]
        rw [graft_cons_of_slot hslot, get_cons_of_child hs' hchild]
        simp only [graft_object_nil_fault? v hrest, noNameOnNull_of_not_mem hname, and_true]

/-- A look-up goes on from a node that is there. -/
theorem get_append_of_leads (h : Leads p t u) (rest : Path) : t.get (p ++ rest) = u.get rest := by
  induction p generalizing t with
  | nil =>
    rw [leads_nil_iff.1 h]
    rfl
  | cons s p ih =>
    obtain ⟨f, w, hf, rfl, hl⟩ := leads_cons_iff.1 h
    rw [List.cons_append, get_cons_of_child (ne_wildcard_of_into hf) (child_fill hf w), ih hl]

/-- An assignment that stops at a node that is there leaves the tree as it is. -/
theorem graft_of_leads_of_slot_error {fault : Fault} (h : Leads p t u)
    (hs : u.slot s = .error fault) (v : Tree ν) (rest : Path) :
    graft v t (p ++ s :: rest) = ⟨t, some fault⟩ :=
  graft_append_of_replaced h (graft_cons_of_slot_error hs rest)

/-! ## 6. Assignments and look-ups at addresses -/

/-- **Look-ups and assignments agree on which paths can be taken.**  Along a path that has segments
but no wildcards, an assignment succeeds if and only if a look-up does and no name of the path is
applied to a null that is there.  And where a look-up fails at a node that is there, reached through
nodes that are there, the assignment fails with the same failure and leaves the tree as it was. -/
theorem setAt_eq_none_iff_getAt {a : Address} (hpath : a.path ≠ []) (hw : .wildcard ∉ a.path)
    (t v : Tree ν) :
    ((t.setAt a v).2 = none ↔ (∃ u, t.getAt a = .ok u) ∧ t.NoNameOnNull a.path) ∧
      ∀ before s rest u fault, a.path = before ++ s :: rest → Leads before t u →
        u.child s = .error fault →
          t.getAt a = .error (.walk a.name fault) ∧
            t.setAt a v = (t, some (.walk a.name fault)) := by
  refine ⟨?_, ?_⟩
  · have hget : (∃ u, t.getAt a = .ok u) ↔ ∃ u, t.get a.path = .ok u := by
      rw [getAt]
      cases t.get a.path <;> simp
    rw [setAt_of_ne_nil hpath, hget, Option.map_eq_none_iff]
    exact graft_fault?_eq_none_iff v hw
  · intro before s rest u fault heq hl hchild
    have hs : s ≠ .wildcard := by
      rintro rfl
      simp [heq] at hw
    have hget : t.get a.path = .error fault := by
      rw [heq, get_append_of_leads hl, get, hchild]
    have hgraft : graft v t a.path = ⟨t, some fault⟩ := by
      rw [heq]
      exact graft_of_leads_of_slot_error hl (slot_of_child_error hs hchild) v rest
    refine ⟨by rw [getAt, hget], ?_⟩
    rw [setAt_of_ne_nil hpath, hgraft]
    rfl

/-! ## 7. A missing name, a null that is there, and a place too far -/

namespace Example

/-- `{"list": [{"x": null}]}` -/
def stocked : Document := .object [("list", .array [.object [("x", .null)]])]

/-- `list[0].y.z`, where the first element of `list` has no `y`. -/
def beyondMissing : Address := .ofPath [.key "list", .index 0, .key "y", .key "z"]

/-- `list[0].x.z`, a name on the null that is there. -/
def beyondNull : Address := .ofPath [.key "list", .index 0, .key "x", .key "z"]

/-- `list[1].x`, behind the end of `list`. -/
def beyondEnd : Address := .ofPath [.key "list", .index 1, .key "x"]

/-- The frames of `stocked` around its null. -/
theorem leads_to_null : Leads [.key "list", .index 0, .key "x"] stocked null :=
  ⟨[.field [] "list" [], .element [] [], .field [] "x" []],
    .cons (.key (by decide)) (.cons (.index (by decide)) (.cons (.key (by decide)) .nil)), rfl, rfl⟩

theorem setAt_beyond_getAt :
    (stocked.setAt beyondMissing null).2 = none ∧ stocked.NoNameOnNull beyondMissing.path ∧
      stocked.getAt beyondNull = .ok null ∧ (stocked.setAt beyondNull null).2 ≠ none ∧
      stocked.getAt beyondEnd = .error (.walk beyondEnd.name (.outOfRange 1 1)) ∧
      stocked.setAt beyondEnd null =
        (stocked, some (.walk beyondEnd.name (.outOfRange 1 1))) := by
  have hset : (stocked.setAt beyondMissing null).2 = none := by decide +kernel
  have hget : stocked.getAt beyondNull = .ok null := by rfl
  have hmissing := (setAt_eq_none_iff_getAt (a := beyondMissing) (by decide) (by decide)
    stocked null).1.1 hset
  have hnull := (setAt_eq_none_iff_getAt (a := beyondNull) (by decide) (by decide) stocked null).1
  have hend := (setAt_eq_none_iff_getAt (a := beyondEnd) (by decide) (by decide) stocked null).2
    [.key "list"] (.index 1) [.key "x"] (.array [.object [("x", .null)]]) (.outOfRange 1 1) rfl
    ⟨[.field [] "list" []], .cons (.key (by decide)) .nil, rfl, rfl⟩ rfl
  refine ⟨hset, hmissing.2, hget, ?_, hend⟩
  intro hnone
  exact (hnull.1 hnone).2 _ "z" [] rfl leads_to_null

end Example

end DocPath.Tree
