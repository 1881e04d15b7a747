import Mathlib.Data.List.Forall2
import DocPath.Address
import DocPath.Proofs.Fields
import DocPath.Proofs.Step

/-!
# A node and what is around it

A tree with one node taken out is a list of frames: for every array or object above the gap, what
stands before the gap in it and what stands after.  That two trees agree everywhere but in one node
is then no statement about all their other nodes: it is one list of frames, filled with the one
node and with the other (`Tree.Replaced`).

In these words everything is said that an assignment along any path can do to a tree, whether it
succeeds or fails (`Tree.Grafted`, `Tree.grafted`): it replaces the node that is there, it adds one
field to one object, or it changes nothing.  An assignment at an address is such a walk as soon as
its path has a segment (`setAt_of_ne_nil`).  The steps of the walk are settled in sections 2 and 3:
a step goes into a gap (`slot_fill`, `refill_fill`), or makes one at the end of an object
(`exists_frame_of_slot`); and below an object that it has made the walk can go on by names only
(`graft_object_nil`).
-/

namespace DocPath

/-! ## 1. Frames -/

/-- An array or an object with a gap in it. -/
inductive Frame (ν : Type) where
  /-- The fields before and after the one of this name, whose value is missing. -/
  | field (before : Fields (Tree ν)) (name : String) (after : Fields (Tree ν))
  /-- The elements before and after the one that is missing. -/
  | element (before after : List (Tree ν))

/-- The frames around a gap in a tree, outermost first. -/
abbrev Frames (ν : Type) := List (Frame ν)

variable {ν : Type}

/-- The node with `t` in the gap. -/
def Frame.fill : Frame ν → Tree ν → Tree ν
  | field before name after, t => .object (before ++ (name, t) :: after)
  | element before after, t => .array (before ++ t :: after)

/-- The tree with `t` in the gap. -/
def Frames.fill (c : Frames ν) (t : Tree ν) : Tree ν := c.foldr Frame.fill t

/-- The segment leads into the gap: its name is that of the missing field and of none before it, or
its place is that of the missing element. -/
inductive Segment.Into : Segment → Frame ν → Prop where
  | key {before : Fields (Tree ν)} {name : String} {after : Fields (Tree ν)} :
      name ∉ before.keys → Into (.key name) (.field before name after)
  | index {before after : List (Tree ν)} {place : Int64} :
      place.toInt = before.length → Into (.index place) (.element before after)

/-- The path leads into the gap, segment by segment. -/
def Path.Into (p : Path) (c : Frames ν) : Prop := List.Forall₂ Segment.Into p c

/-- What an object answers to a segment that is no name. -/
inductive Segment.Foreign : Segment → Fault → Prop where
  | index (place : Int64) : Foreign (.index place) (.notArray .object)
  | wildcard : Foreign .wildcard .wildcard

namespace Tree

/-- `t'` is `t` with `u'` in the place of `u`, where `p` leads. -/
def Replaced (p : Path) (u u' t t' : Tree ν) : Prop :=
  ∃ c : Frames ν, p.Into c ∧ t = c.fill u ∧ t' = c.fill u'

/-- All along `p` the nodes of `t` are there, and the last one is `u`. -/
def Leads (p : Path) (t u : Tree ν) : Prop := Replaced p u u t t

/-- `t'` is `t` with one new field, the last one of an object that is there, where `p` leads, and
that lacks its name. -/
def GainsField (p : Path) (name : String) (x t t' : Tree ν) : Prop :=
  ∃ fields : Fields (Tree ν), name ∉ fields.keys ∧
    Replaced p (object fields) (object (fields ++ [(name, x)])) t t'

variable {s : Segment} {p : Path} {f : Frame ν} {t t' u u' v w x : Tree ν}

theorem Replaced.here (u u' : Tree ν) : Replaced [] u u' u u' := ⟨[], .nil, rfl, rfl⟩

theorem Replaced.step (hf : s.Into f) (h : Replaced p u u' t t') :
    Replaced (s :: p) u u' (f.fill t) (f.fill t') := by
  obtain ⟨c, hc, rfl, rfl⟩ := h
  exact ⟨f :: c, .cons hf hc, rfl, rfl⟩

theorem GainsField.step {name : String} (hf : s.Into f) (h : GainsField p name x t t') :
    GainsField (s :: p) name x (f.fill t) (f.fill t') := by
  obtain ⟨fields, hname, hr⟩ := h
  exact ⟨fields, hname, hr.step hf⟩

theorem GainsField.here {name : String} {fields : Fields (Tree ν)} (h : name ∉ fields.keys)
    (x : Tree ν) : GainsField [] name x (object fields) (object (fields ++ [(name, x)])) :=
  ⟨fields, h, .here _ _⟩

/-! ## 2. Steps into a gap -/

/-- The step down leads to what is in the gap. -/
theorem slot_fill (hf : s.Into f) (t : Tree ν) : (f.fill t).slot s = .ok t := by
  cases hf with
  | key hname => simp only [Frame.fill, slot, Fields.get?_append_cons hname, Option.getD_some]
  | @index before after place hplace =>
    have he : element? (before ++ t :: after) place = some t :=
      element?_eq_some_iff.2 ⟨before.length, hplace, by simp⟩
    simp only [Frame.fill, slot, he]

/-- The step back up fills the gap anew. -/
theorem refill_fill (hf : s.Into f) (t u : Tree ν) : (f.fill t).refill s u = f.fill u := by
  cases hf with
  | key hname => simp only [Frame.fill, refill, Fields.insert_append hname]
  | index hplace => simp [Frame.fill, refill, hplace]

/-- Where a step down succeeds, the step back up fills a gap, into which the segment leads.  Either
the gap is where the step found its node, or it is made at the end of an object that lacks the
name, and the step found an object without fields instead. -/
theorem exists_frame_of_slot (h : t.slot s = .ok u) :
    ∃ f : Frame ν, s.Into f ∧ (∀ w, t.refill s w = f.fill w) ∧
      (t = f.fill u ∨ ∃ name fields, s = .key name ∧ t = object fields ∧
        name ∉ Fields.keys fields ∧ u = object [] ∧ f = .field fields name []) := by
  rcases slot_cases h with ⟨name, fields, rfl, rfl, hg⟩ | ⟨name, fields, rfl, rfl, hg, rfl⟩ |
    ⟨place, items, rfl, rfl, he⟩
  · obtain ⟨before, after, rfl, hname⟩ := Fields.exists_append_of_get? hg
    have hinto : (Segment.key name).Into (.field before name after) := .key hname
    exact ⟨.field before name after, hinto, refill_fill hinto u, .inl rfl⟩
  · have hname : name ∉ Fields.keys fields := Fields.get?_eq_none_iff.1 hg
    refine ⟨.field fields name [], .key hname, ?_, .inr ⟨name, fields, rfl, rfl, hname, rfl, rfl⟩⟩
    intro w
    rw [refill, Fields.insert_of_not_mem hname, Frame.fill]
  · obtain ⟨n, hn, hu⟩ := element?_eq_some_iff.1 he
    obtain ⟨hlt, rfl⟩ := List.getElem?_eq_some_iff.1 hu
    have hitems : items.take n ++ items[n] :: items.drop (n + 1) = items := by simp
    have hinto : (Segment.index place).Into (.element (items.take n) (items.drop (n + 1))) :=
      .index (by simp [hn, Nat.le_of_lt hlt])
    refine ⟨.element (items.take n) (items.drop (n + 1)), hinto, ?_, .inl ?_⟩
    · intro w
      have hrefill := refill_fill hinto items[n] w
      rwa [Frame.fill, hitems] at hrefill
    · rw [Frame.fill, hitems]

/-- A walk into a gap stays in it. -/
theorem graft_fill (hf : s.Into f) (v t : Tree ν) (rest : Path) :
    graft v (f.fill t) (s :: rest) =
      ⟨f.fill (graft v t rest).tree, (graft v t rest).fault?⟩ := by
  rw [graft_cons_of_slot (slot_fill hf t), refill_fill hf]

/-- A walk through nodes that are there does in the whole what the rest of it does in the gap. -/
theorem graft_append_of_replaced {fault? : Option Fault} {rest : Path}
    (h : Replaced p u u' t t') (hrest : graft v u rest = ⟨u', fault?⟩) :
    graft v t (p ++ rest) = ⟨t', fault?⟩ := by
  obtain ⟨c, hc, rfl, rfl⟩ := h
  induction hc with
  | nil => exact hrest
  | @cons s f p c hf _ ih =>
    have hfill (w : Tree ν) : Frames.fill (f :: c) w = f.fill (Frames.fill c w) := rfl
    rw [List.cons_append, hfill, graft_fill hf, ih, hfill]

/-! ## 3. Below an object that was made -/

/-- Objects of one field each, one in the other, and `t` innermost. -/
def nest (names : List String) (t : Tree ν) : Tree ν :=
  names.foldr (fun name t => object [(name, t)]) t

/-- All that a walk can do below an object that was just made: it makes one object in the other,
name after name, up to the end of the path or to the first segment that is no name. -/
theorem graft_object_nil (v : Tree ν) (p : Path) :
    (∃ names : List String, p = names.map .key ∧
      graft v (object []) p = ⟨nest names v, none⟩) ∨
    ∃ (names : List String) (s : Segment) (rest : Path) (fault : Fault),
      p = names.map .key ++ s :: rest ∧ s.Foreign fault ∧
        graft v (object []) p = ⟨nest names (object []), some fault⟩ := by
  induction p with
  | nil => exact .inl ⟨[], rfl, rfl⟩
  | cons s rest ih =>
    cases s with
    | key name =>
      have hstep : graft v (object []) (.key name :: rest) =
          ⟨object [(name, (graft v (object []) rest).tree)], (graft v (object []) rest).fault?⟩ :=
        graft_cons_of_slot rfl rest
      rcases ih with ⟨names, rfl, hg⟩ | ⟨names, s, rest, fault, rfl, hs, hg⟩
      · refine .inl ⟨name :: names, rfl, ?_⟩
        rw [hstep, hg]
        rfl
      · refine .inr ⟨name :: names, s, rest, fault, rfl, hs, ?_⟩
        rw [hstep, hg]
        rfl
    | index place => exact .inr ⟨[], .index place, rest, _, rfl, .index place, rfl⟩
    | wildcard => exact .inr ⟨[], .wildcard, rest, _, rfl, .wildcard, rfl⟩

/-! ## 4. All that an assignment can do -/

/-- What an assignment of `v` along a path does to a tree. -/
inductive Grafted (v : Tree ν) : Path → Tree ν → Assignment ν → Prop where
  /-- The nodes of the path are there, and `v` takes the place of the last one. -/
  | replaced {p : Path} {u t t' : Tree ν} : Replaced p u v t t' → Grafted v p t ⟨t', none⟩
  /-- The path leads to an object, goes on with a name that the object lacks, and holds only names
  from there on. -/
  | added {p : Path} {name : String} {names : List String} {t t' : Tree ν} :
      GainsField p name (nest names v) t t' →
      Grafted v (p ++ .key name :: names.map .key) t ⟨t', none⟩
  /-- The path leads to a node from which it cannot go on. -/
  | stopped {p : Path} {s : Segment} {rest : Path} {t u : Tree ν} {fault : Fault} :
      Leads p t u → u.slot s = .error fault → Grafted v (p ++ s :: rest) t ⟨t, some fault⟩
  /-- The path leads to an object, goes on with a name that the object lacks and perhaps with more
  names, and then with a segment that is no name. -/
  | abandoned {p : Path} {name : String} {names : List String} {s : Segment} {rest : Path}
      {t t' : Tree ν} {fault : Fault} :
      GainsField p name (nest names (object [])) t t' → s.Foreign fault →
      Grafted v (p ++ .key name :: (names.map .key ++ s :: rest)) t ⟨t', some fault⟩

theorem Grafted.step {a : Assignment ν} (hf : s.Into f) (h : Grafted v p t a) :
    Grafted v (s :: p) (f.fill t) ⟨f.fill a.tree, a.fault?⟩ := by
  cases h with
  | replaced hr => exact .replaced (hr.step hf)
  | added hg => exact .added (p := s :: _) (hg.step hf)
  | stopped hl hs => exact .stopped (p := s :: _) (hl.step hf) hs
  | abandoned hg hs => exact .abandoned (p := s :: _) (hg.step hf) hs

/-- Below an object that lacks the next name, a walk adds one field to it. -/
theorem grafted_of_not_mem {name : String} {fields : Fields (Tree ν)} (h : name ∉ fields.keys)
    (v : Tree ν) (rest : Path) :
    Grafted v (.key name :: rest) (object fields)
      ⟨object (fields ++ [(name, (graft v (object []) rest).tree)]),
        (graft v (object []) rest).fault?⟩ := by
  rcases graft_object_nil v rest with ⟨names, rfl, hg⟩ | ⟨names, s, rest, fault, rfl, hs, hg⟩
  · rw [hg]
    exact .added (p := []) (.here h _)
  · rw [hg]
    exact .abandoned (p := []) (.here h _) hs

/-- **All that an assignment can do**, along any path and to any tree. -/
theorem grafted (v t : Tree ν) (p : Path) : Grafted v p t (graft v t p) := by
  induction p generalizing t with
  | nil => exact .replaced (.here t v)
  | cons s rest ih =>
    cases hs : t.slot s with
    | error fault =>
      rw [graft_cons_of_slot_error hs]
      exact .stopped (p := []) (.here t t) hs
    | ok u =>
      obtain ⟨f, hf, hrefill, hcase⟩ := exists_frame_of_slot hs
      rw [graft_cons_of_slot hs, hrefill]
      rcases hcase with rfl | ⟨name, fields, rfl, rfl, hname, rfl, rfl⟩
      · exact (ih u).step hf
      · exact grafted_of_not_mem hname v rest

/-- An assignment along a path with segments is a walk. -/
theorem setAt_of_ne_nil {a : Address} (h : a.path ≠ []) (t v : Tree ν) :
    t.setAt a v = ((graft v t a.path).tree, (graft v t a.path).fault?.map (.walk a.name)) := by
  rw [setAt, set, if_neg h]

/-- An assignment along a path without segments fails and changes nothing. -/
theorem setAt_of_nil {a : Address} (h : a.path = []) (t v : Tree ν) :
    t.setAt a v = (t, some (.walk a.name .emptyPath)) := by
  rw [setAt, set, if_pos h]
  rfl

end Tree

end DocPath
