import DocPath.Proofs.Agreement
import DocPath.Proofs.Runs

/-!
# What an assignment that succeeds has done

An assignment that succeeds has done one of two things (`setAt_succeeds_iff`).  Either every node of
the path was there, and the value now stands where the last one stood (`Overwritten`).  Or the path
led to an object that lacks the name that comes next, and this object has one new field, the last
one, which holds objects of one field each for the names that follow and the value innermost
(`Extended`); then nothing but names can follow, for an object that was just made lets nothing else
through.  It has never done both, and around the node or the field in question every frame is as it
was.

The converse holds too: a path with segments along which the one or the other can be done is
assigned with success, and exactly that is done.  Sections 1 and 2 are the two directions, section 3
is why the two exclude each other: where a name is missing, no path that goes on with it leads to
anything (`not_leads_of_not_mem`).
-/

namespace DocPath.Tree

variable {ν : Type} {p q : Path} {t t' u u' v x : Tree ν}

/-! ## 1. The two effects -/

/-- `t'` is `t` with `v` in the place of the node that `p` leads to. -/
def Overwritten (v : Tree ν) (p : Path) (t t' : Tree ν) : Prop := ∃ u, Replaced p u v t t'

/-- `t'` is `t` with one new field, the last one of an object that a part of `p` leads to and that
lacks the name that `p` goes on with: the rest of `p` is names, and the field holds one object in
the other for them and `v` innermost. -/
def Extended (v : Tree ν) (p : Path) (t t' : Tree ν) : Prop :=
  ∃ (q : Path) (name : String) (names : List String),
    p = q ++ .key name :: names.map .key ∧ GainsField q name (nest names v) t t'

/-- A walk that succeeds has one of the two effects. -/
theorem overwritten_or_extended (h : graft v t p = ⟨t', none⟩) :
    Overwritten v p t t' ∨ Extended v p t t' := by
  have hall := grafted v t p
  rw [h] at hall
  cases hall with
  | replaced hr => exact .inl ⟨_, hr⟩
  | added hg => exact .inr ⟨_, _, _, rfl, hg⟩

/-! ## 2. Walks with these effects succeed -/

/-- Names alone are walked to the end below an object without fields. -/
theorem graft_object_nil_map_key (v : Tree ν) (names : List String) :
    graft v (object []) (names.map .key) = ⟨nest names v, none⟩ := by
  induction names with
  | nil => rfl
  | cons name names ih =>
    have hstep : (object [] : Tree ν).slot (.key name) = .ok (object []) := rfl
    rw [List.map_cons, graft_cons_of_slot hstep, ih]
    rfl

theorem graft_of_overwritten (h : Overwritten v p t t') : graft v t p = ⟨t', none⟩ := by
  obtain ⟨u, hr⟩ := h
  have hwalk : graft v t (p ++ []) = ⟨t', none⟩ := graft_append_of_replaced hr rfl
  rwa [List.append_nil] at hwalk

theorem graft_of_extended (h : Extended v p t t') : graft v t p = ⟨t', none⟩ := by
  obtain ⟨q, name, names, rfl, fields, hname, hr⟩ := h
  have hslot : (object fields).slot (.key name) = .ok (object []) := by
    rw [slot, Fields.get?_eq_none_iff.2 hname]
    rfl
  refine graft_append_of_replaced hr ?_
  rw [graft_cons_of_slot hslot, graft_object_nil_map_key, refill,
    Fields.insert_of_not_mem hname]

/-! ## 3. Never both -/

/-- Where an object lacks a name, a path that goes on with it leads nowhere. -/
theorem not_leads_of_not_mem {name : String} {fields : Fields (Tree ν)} (h : name ∉ fields.keys)
    (hl : Leads q t (object fields)) (rest : Path) :
    ¬ Leads (q ++ .key name :: rest) t x := by
  induction q generalizing t with
  | nil =>
    intro hlong
    obtain ⟨f, w, hf, ht, -⟩ := leads_cons_iff.1 hlong
    rw [leads_nil_iff.1 hl] at ht
    exact ne_fill_of_not_mem h hf w ht
  | cons s q ih =>
    intro hlong
    obtain ⟨f, w, hf, rfl, hw⟩ := leads_cons_iff.1 hl
    obtain ⟨g, w', hg, ht, hw'⟩ := leads_cons_iff.1 hlong
    rw [← eq_of_fill_eq_fill hf hg ht] at hw'
    exact ih hw hw'

theorem not_overwritten_and_extended : ¬ (Overwritten v p t t' ∧ Extended v p t t') := by
  rintro ⟨⟨u, c, hc, ht, -⟩, q, name, names, rfl, fields, hname, d, hd, ht', -⟩
  have hthere : Leads (q ++ .key name :: names.map .key) t u := ⟨c, hc, ht, ht⟩
  exact not_leads_of_not_mem hname ⟨d, hd, ht', ht'⟩ _ hthere

/-! ## 4. What is overwritten keeps its shape -/

/-- An array of as many elements, or an object with the same names in the same order. -/
def SameShape : Tree ν → Tree ν → Prop
  | array items, array items' => items'.length = items.length
  | object fields, object fields' => Fields.keys fields' = Fields.keys fields
  | _, _ => False

theorem sameShape_fill (f : Frame ν) (t t' : Tree ν) : (f.fill t).SameShape (f.fill t') := by
  cases f with
  | field before name after => simp [Frame.fill, SameShape, Fields.keys]
  | element before after => simp [Frame.fill, SameShape]

/-- Every node on the way to the one that is replaced keeps its shape. -/
theorem Replaced.sameShape (h : Replaced (p ++ q) u u' t t') (hq : q ≠ []) :
    ∃ x x', Leads p t x ∧ Leads p t' x' ∧ SameShape x x' := by
  induction p generalizing t t' with
  | nil =>
    obtain ⟨c, hc, rfl, rfl⟩ := h
    cases hc with
    | nil => exact absurd rfl hq
    | @cons s f q c _ _ => exact ⟨_, _, .here _ _, .here _ _, sameShape_fill f _ _⟩
  | cons s p ih =>
    obtain ⟨c, hc, rfl, rfl⟩ := h
    cases hc with
    | @cons _ f _ c hf hc =>
      obtain ⟨x, x', hx, hx', hshape⟩ := ih ⟨c, hc, rfl, rfl⟩
      exact ⟨x, x', hx.step hf, hx'.step hf, hshape⟩

/-! ## 5. Assignments at addresses -/

/-- A walk that succeeds is an assignment that succeeds, as soon as there is a segment. -/
theorem setAt_eq_none_iff {a : Address} :
    t.setAt a v = (t', none) ↔ a.path ≠ [] ∧ graft v t a.path = ⟨t', none⟩ := by
  constructor
  · intro h
    refine ⟨?_, graft_of_setAt h⟩
    intro hpath
    rw [setAt_of_nil hpath] at h
    cases h
  · rintro ⟨hpath, hg⟩
    rw [setAt_of_ne_nil hpath, hg]
    rfl

/-- **What an assignment that succeeds has done, exactly.**  It succeeds and leaves `t'` if and only
if its path has segments, none of them a wildcard, and exactly one of these holds: all nodes of the
path are there, and `t'` is the tree with the value in the place of the last one; or the path leads
to an object that lacks the name that comes next and holds only names from there on, and `t'` is the
tree with one new last field in that object, for these names and the value.  In the first case every
array on the way keeps its length, and every object its names in their order. -/
theorem setAt_succeeds_iff (a : Address) (t v t' : Tree ν) :
    (t.setAt a v = (t', none) ↔
      a.path ≠ [] ∧ .wildcard ∉ a.path ∧
        (Overwritten v a.path t t' ∨ Extended v a.path t t') ∧
        ¬ (Overwritten v a.path t t' ∧ Extended v a.path t t')) ∧
    (Overwritten v a.path t t' → ∀ p q, a.path = p ++ q → q ≠ [] →
      ∃ x x', Leads p t x ∧ Leads p t' x' ∧ SameShape x x') := by
  refine ⟨?_, ?_⟩
  · rw [setAt_eq_none_iff]
    constructor
    · rintro ⟨hpath, hg⟩
      have hok : (graft v t a.path).fault? = none := by rw [hg]
      exact ⟨hpath, wildcard_not_mem_of_graft hok, overwritten_or_extended hg,
        not_overwritten_and_extended⟩
    · rintro ⟨hpath, -, hdone | hdone, -⟩
      · exact ⟨hpath, graft_of_overwritten hdone⟩
      · exact ⟨hpath, graft_of_extended hdone⟩
  · rintro ⟨u, hr⟩ p q hpath hq
    rw [hpath] at hr
    exact hr.sameShape hq

namespace Example

/-- `{"list": [{"x": null, "y": true}]}` -/
def shelf : Document := .object [("list", .array [.object [("x", .null), ("y", .bool true)]])]

/-- `list[0].x`, which is there. -/
def present : Address := .ofPath [.key "list", .index 0, .key "x"]

/-- `list[0].a.b`, where the first element of `list` has no `a`. -/
def absent : Address := .ofPath [.key "list", .index 0, .key "a", .key "b"]

/-- `{"list": [{"x": "new", "y": true}]}` -/
def overwritten : Document :=
  .object [("list", .array [.object [("x", .string "new"), ("y", .bool true)]])]

/-- `{"list": [{"x": null, "y": true, "a": {"b": "new"}}]}` -/
def extended : Document :=
  .object [("list", .array [.object [("x", .null), ("y", .bool true),
    ("a", .object [("b", .string "new")])]])]

theorem overwritten_or_extended_shelf :
    Overwritten (.string "new") present.path shelf overwritten ∧
      ¬ Extended (.string "new") present.path shelf overwritten ∧
      Extended (.string "new") absent.path shelf extended ∧
      shelf.setAt absent (.string "new") = (extended, none) := by
  have hpresent : shelf.setAt present (.string "new") = (overwritten, none) := by decide +kernel
  have hthere : Overwritten (.string "new") present.path shelf overwritten :=
    ⟨null, [.field [] "list" [], .element [] [], .field [] "x" [("y", .bool true)]],
      .cons (.key (by decide)) (.cons (.index (by decide)) (.cons (.key (by decide)) .nil)),
      rfl, rfl⟩
  have hmade : Extended (.string "new") absent.path shelf extended :=
    ⟨[.key "list", .index 0], "a", ["b"], rfl, [("x", .null), ("y", .bool true)], by decide,
      [.field [] "list" [], .element [] []],
      .cons (.key (by decide)) (.cons (.index (by decide)) .nil), rfl, rfl⟩
  obtain ⟨-, -, -, hone⟩ := (setAt_succeeds_iff present shelf (.string "new") overwritten).1.1
    hpresent
  have habsent := (setAt_succeeds_iff absent shelf (.string "new") extended).1.2
    ⟨by decide, by decide, .inr hmade, not_overwritten_and_extended⟩
  exact ⟨hthere, fun h => hone ⟨hthere, h⟩, hmade, habsent⟩

end Example

end DocPath.Tree
