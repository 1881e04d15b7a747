import DocPath.Document
import DocPath.Proofs.Frames
import DocPath.Tree.Focus

/-!
# What a failed assignment leaves behind

An assignment that fails leaves the tree as it was, or it leaves objects that it has made on its
way.  In the second case there is exactly one new field, the last one of an object that was there,
and what made the walk fail is the first segment after the new names (`residue_of_setAt`).

Section 1 says what that means for the nodes that were there.  Every one of them is found in the
same place afterwards: an array with as many elements, an object with its names in their order
before any new one, and any other node unchanged (`Kept`).
-/

namespace DocPath.Tree

variable {ν : Type} {t t' u u' v x : Tree ν}

/-! ## 1. Nodes that stay -/

/-- What the root node keeps: an array its length, an object its names in their order, and any
other node its value. -/
def RootKept : Tree ν → Tree ν → Prop
  | array items, array items' => items'.length = items.length
  | object fields, object fields' => Fields.keys fields <+: Fields.keys fields'
  | t, t' => t' = t

/-- Every node of the first tree is kept in the second, in the same place. -/
def Kept (t t' : Tree ν) : Prop :=
  ∀ steps u, t.focus? steps = some u → ∃ u', t'.focus? steps = some u' ∧ u.RootKept u'

theorem RootKept.refl (t : Tree ν) : t.RootKept t := by
  cases t with
  | array items => exact rfl
  | object fields => exact List.prefix_rfl
  | null | bool _ | number _ | string _ => exact rfl

theorem Kept.refl (t : Tree ν) : t.Kept t := by
  intro steps u hu
  exact ⟨u, hu, .refl u⟩

/-- A change in a gap is none around it: the array keeps its length, the object its names. -/
theorem RootKept.fill (f : Frame ν) (t t' : Tree ν) : (f.fill t).RootKept (f.fill t') := by
  cases f with
  | field before name after => simp [Frame.fill, RootKept, Fields.keys]
  | element before after => simp [Frame.fill, RootKept]

/-- An exact step leads into the gap, or past it to where it leads whatever is in the gap. -/
theorem enter?_fill (f : Frame ν) (s : ExactStep) :
    (∀ t, (f.fill t).enter? s = some t) ∨ ∃ r, ∀ t, (f.fill t).enter? s = r := by
  cases f with
  | field before name after =>
    cases s with
    | element place => exact .inr ⟨none, fun t => by cases place <;> rfl⟩
    | field other =>
      simp only [Frame.fill, enter?, Fields.get?_append, Fields.get?_cons]
      cases Fields.get? other before with
      | some y => exact .inr ⟨some y, fun _ => rfl⟩
      | none =>
        by_cases h : name = other
        · exact .inl fun t => by simp [h]
        · exact .inr ⟨Fields.get? other after, fun t => by simp [h]⟩
  | element before after =>
    cases s with
    | field other => exact .inr ⟨none, fun _ => rfl⟩
    | element place =>
      cases place with
      | negSucc n => exact .inr ⟨none, fun _ => rfl⟩
      | ofNat n =>
        simp only [Frame.fill, enter?]
        rcases Nat.lt_trichotomy n before.length with h | rfl | h
        · exact .inr ⟨before[n]?, fun t => List.getElem?_append_left h⟩
        · exact .inl fun t => by simp
        · refine .inr ⟨after[n - before.length - 1]?, fun t => ?_⟩
          rw [List.getElem?_append_right (Nat.le_of_lt h),
            List.getElem?_cons, if_neg (Nat.sub_ne_zero_of_lt h)]

/-- What is kept in a gap is kept in the whole. -/
theorem Kept.fill (f : Frame ν) (h : t.Kept t') : (f.fill t).Kept (f.fill t') := by
  intro steps u hu
  cases steps with
  | nil =>
    cases hu
    exact ⟨f.fill t', rfl, .fill f t t'⟩
  | cons s rest =>
    rw [focus?] at hu
    rcases enter?_fill f s with hin | ⟨r, hr⟩
    · rw [hin, Option.bind_some] at hu
      obtain ⟨u', hu', hkept⟩ := h rest u hu
      refine ⟨u', ?_, hkept⟩
      rw [focus?, hin, Option.bind_some, hu']
    · refine ⟨u, ?_, .refl u⟩
      rw [focus?, hr, ← hr t, hu]

/-- A field that is added last hides no field that was there. -/
theorem kept_object_append (fields new : Fields (Tree ν)) :
    (object fields).Kept (object (fields ++ new)) := by
  intro steps u hu
  cases steps with
  | nil =>
    cases hu
    exact ⟨_, rfl, by simp [RootKept, Fields.keys]⟩
  | cons s rest =>
    refine ⟨u, ?_, .refl u⟩
    obtain ⟨x, hx, hu⟩ := Option.bind_eq_some_iff.1 hu
    have hx' : (object (fields ++ new)).enter? s = some x := by
      cases s with
      | field name =>
        have hname : Fields.get? name fields = some x := hx
        rw [enter?, Fields.get?_append, hname, Option.some_or]
      | element place => cases place <;> cases hx
    rw [focus?, hx', Option.bind_some, hu]

/-- A tree that gains a field keeps all its nodes. -/
theorem GainsField.kept {p : Path} {name : String} (h : GainsField p name x t t') : t.Kept t' := by
  obtain ⟨fields, -, c, -, rfl, rfl⟩ := h
  induction c with
  | nil => exact kept_object_append fields _
  | cons f c ih => exact ih.fill f

/-! ## 2. Assignments that fail -/

/-- An assignment that fails has no path, or is a walk that fails. -/
theorem graft_of_setAt_failure {a : Address} {failure : Failure}
    (h : t.setAt a v = (t', some failure)) :
    t' = t ∨ ∃ fault, failure = .walk a.name fault ∧ graft v t a.path = ⟨t', some fault⟩ := by
  by_cases hpath : a.path = []
  · rw [setAt_of_nil hpath] at h
    exact .inl (Prod.mk.inj h).1.symm
  · rw [setAt_of_ne_nil hpath] at h
    obtain ⟨htree, hfault⟩ := Prod.mk.inj h
    obtain ⟨fault, hsome, hfailure⟩ := Option.map_eq_some_iff.1 hfault
    exact .inr ⟨fault, hfailure.symm, by rw [← htree, ← hsome]⟩

/-- **What a failed assignment leaves behind.**  The tree is as it was; or the path leads through
nodes that are there to an object that lacks the name that comes next, that object has one new last
field, of this name, with objects for the names that follow one in the other and the innermost one
empty, and the segment behind those names is none: an index, of which an object says that it is no
array, or a wildcard.  In both cases every node that was there is kept where it was. -/
theorem residue_of_setAt {a : Address} {failure : Failure} (h : t.setAt a v = (t', some failure)) :
    (t' = t ∨ ∃ (p : Path) (name : String) (names : List String) (s : Segment) (rest : Path)
        (fault : Fault), a.path = p ++ .key name :: (names.map .key ++ s :: rest) ∧
      GainsField p name (nest names (object [])) t t' ∧ s.Foreign fault ∧
      failure = .walk a.name fault) ∧ t.Kept t' := by
  rcases graft_of_setAt_failure h with rfl | ⟨fault, rfl, hg⟩
  · exact ⟨.inl rfl, .refl t'⟩
  · have hall := grafted v t a.path
    rw [hg] at hall
    generalize a.path = path at hall
    cases hall with
    | stopped _ _ => exact ⟨.inl rfl, .refl t⟩
    | @abandoned p name names s rest _ _ _ hgains hs =>
      exact ⟨.inr ⟨p, name, names, s, rest, fault, rfl, hgains, hs, rfl⟩, hgains.kept⟩

/-! ## 3. A failure below a new object in an array -/

namespace Example

/-- `{"x": true, "list": [{"y": null}]}` -/
def untouched : Document := .object [("x", .bool true), ("list", .array [.object [("y", .null)]])]

/-- `list[0].fresh.deep[1].z`, where the first element of `list` has no `fresh`. -/
def astray : Address :=
  .ofPath [.key "list", .index 0, .key "fresh", .key "deep", .index 1, .key "z"]

/-- `{"x": true, "list": [{"y": null, "fresh": {"deep": {}}}]}` -/
def left : Document :=
  .object [("x", .bool true),
    ("list", .array [.object [("y", .null), ("fresh", .object [("deep", .object [])])]])]

theorem residue_in_element :
    untouched.setAt astray (.bool false) = (left, some (.walk astray.name (.notArray .object))) ∧
      left ≠ untouched ∧
      (∃ p name names s rest fault, astray.path = p ++ .key name :: (names.map .key ++ s :: rest) ∧
        GainsField p name (nest names (object [])) untouched left ∧ s.Foreign fault ∧
        Failure.walk astray.name (.notArray .object) = .walk astray.name fault) ∧
      left.focus? [.field "list", .element 0, .field "y"] = some null := by
  have hset : untouched.setAt astray (.bool false) =
      (left, some (.walk astray.name (.notArray .object))) := by decide +kernel
  have hne : left ≠ untouched := by decide +kernel
  obtain ⟨hcase, hkept⟩ := residue_of_setAt hset
  obtain ⟨u', hu', rfl⟩ := hkept [.field "list", .element 0, .field "y"] null rfl
  exact ⟨hset, hne, hcase.resolve_left hne, hu'⟩

end Example

end DocPath.Tree
