import DocPath.Document
import DocPath.Proofs.Commute
import DocPath.Proofs.SetThenGet

/-!
# Runs of assignments

A run is any number of assignments one after the other; each leaves a tree, whether it succeeds or
fails, and the next one starts from it.  Main statement (`getAt_setAll`): a value that was assigned
with success is found where it was put until an assignment meets its path, that is, until the one
path begins with the other.

What a run preserves is that a look-up along a path without wildcards finds the value.  One step of
the argument is `get_graft_of_parting`: a walk along a path that parts from the one looked up
cannot change what is found, nor can it when it fails half-way.  It may still put objects on the
way of the look-up, where the look-up has gone through null until then; but below such a node the
look-up can go on by names only, and so it can through an object without fields
(`get_object_nil_of_null`).
-/

namespace DocPath.Tree

variable {ν : Type} {s s' : Segment} {p q : Path} {t u v w : Tree ν}

/-! ## 1. Look-ups past a walk -/

/-- Where an assignment can take one step and a look-up another, the two lead apart. -/
theorem apart_of_child {c : Tree ν} (hs : s ≠ .wildcard) (hne : s' ≠ s)
    (hslot : t.slot s' = .ok u) (hchild : t.child s = .ok c) : s'.Apart s := by
  rcases name_or_place_of_slot hslot with ⟨other, fields, rfl, rfl⟩ | ⟨other, items, rfl, rfl, -⟩
  · cases s with
    | key name => exact fun e => hne (congrArg Segment.key e)
    | index _ => cases hchild
    | wildcard => cases hchild
  · cases s with
    | key _ => cases hchild
    | index place => exact fun e => hne (congrArg Segment.index e)
    | wildcard => exact absurd rfl hs

/-- A look-up that succeeds begins with a step that succeeds. -/
theorem exists_child_of_get_cons {rest : Path} (h : t.get (s :: rest) = .ok v) :
    ∃ c, t.child s = .ok c := by
  rw [get] at h
  cases hc : t.child s with
  | ok c => exact ⟨c, rfl⟩
  | error fault =>
    rw [hc] at h
    cases h

/-- What is found below null is found below an object without fields. -/
theorem get_object_nil_of_null (hp : p ≠ []) (h : (null : Tree ν).get p = .ok v) :
    (object []).get p = .ok v := by
  cases p with
  | nil => exact absurd rfl hp
  | cons s rest =>
    cases s with
    | key name => rw [get_cons_congr (child_object_nil name), h]
    | index _ => cases h
    | wildcard => cases h

/-- **What a walk cannot change.**  A walk along a path that parts from `p` leaves the value found
at `p`, also if the walk fails. -/
theorem get_graft_of_parting (hq : q.Parting p) (hp : .wildcard ∉ p) (h : t.get p = .ok v)
    (w : Tree ν) : (graft w t q).tree.get p = .ok v := by
  induction hq generalizing t with
  | @here s' s q p hne =>
    have hs : s ≠ .wildcard := fun e => hp (e ▸ List.mem_cons_self)
    obtain ⟨c, hc⟩ := exists_child_of_get_cons h
    cases hslot : t.slot s' with
    | error fault => rwa [graft_cons_of_slot_error hslot]
    | ok u =>
      rw [graft_cons_of_slot hslot, ← h]
      exact get_cons_congr (child_refill_of_apart hslot (apart_of_child hs hne hslot hc) _) p
  | @there s q p hq ih =>
    obtain ⟨hs, hrest⟩ := not_or.1 (mt List.mem_cons.2 hp)
    have hs' : s ≠ .wildcard := fun e => hs e.symm
    cases hslot : t.slot s with
    | error fault => rwa [graft_cons_of_slot_error hslot]
    | ok u =>
      rw [graft_cons_of_slot hslot, get_cons_of_child hs' (child_refill hslot _)]
      rcases child_of_slot hslot with hc | ⟨hc, rfl⟩
      · rw [get_cons_of_child hs' hc] at h
        exact ih hrest h
      -- the look-up stood on null where the walk has put an object
      · rw [get_cons_of_child hs' hc] at h
        exact ih hrest (get_object_nil_of_null hq.ne_nil.2 h)

/-- A walk that succeeds goes through no wildcard. -/
theorem wildcard_not_mem_of_graft (h : (graft v t p).fault? = none) : .wildcard ∉ p := by
  induction p generalizing t with
  | nil => exact List.not_mem_nil
  | cons s rest ih =>
    obtain ⟨u, hu, hrest⟩ := slot_of_graft_cons h
    intro hmem
    rcases List.mem_cons.1 hmem with hs | hmem
    · exact ne_wildcard_of_slot hu hs.symm
    · exact ih hrest hmem

/-! ## 2. Runs -/

/-- The tree after assignments of values at addresses, one after the other. -/
def setAll (t : Tree ν) (writes : List (Address × Tree ν)) : Tree ν :=
  writes.foldl (fun t write => (t.setAt write.1 write.2).1) t

/-- One assignment along a path that parts from `p` leaves the value found at `p`. -/
theorem get_setAt_of_parting {a : Address} (ha : a.path.Parting p) (hp : .wildcard ∉ p)
    (h : t.get p = .ok v) (w : Tree ν) : (t.setAt a w).1.get p = .ok v := by
  rw [setAt_of_ne_nil ha.ne_nil.1]
  exact get_graft_of_parting ha hp h w

/-- So does a run of such assignments. -/
theorem get_setAll_of_parting {writes : List (Address × Tree ν)}
    (hwrites : ∀ write ∈ writes, write.1.path.Parting p) (hp : .wildcard ∉ p)
    (h : t.get p = .ok v) : (t.setAll writes).get p = .ok v := by
  induction writes generalizing t with
  | nil => exact h
  | cons write writes ih =>
    obtain ⟨hwrite, hrest⟩ := List.forall_mem_cons.1 hwrites
    exact ih hrest (get_setAt_of_parting hwrite hp h write.2)

/-- **The last write wins, over any run.**  Where an assignment succeeds in a run and the path of
every later one neither is a beginning of its path nor begins with it, a look-up at the end finds
exactly the value assigned, whatever came before it and whether the later ones succeed or fail. -/
theorem getAt_setAll {before later : List (Address × Tree ν)} {a : Address}
    (hset : ((t.setAll before).setAt a v).2 = none)
    (hlater : ∀ write ∈ later, ¬ write.1.path <+: a.path ∧ ¬ a.path <+: write.1.path)
    (name : String) : (t.setAll (before ++ (a, v) :: later)).getAt ⟨a.path, name⟩ = .ok v := by
  have hwalk : graft v (t.setAll before) a.path = ⟨((t.setAll before).setAt a v).1, none⟩ :=
    graft_of_setAt (Prod.ext rfl hset)
  have hok : (graft v (t.setAll before) a.path).fault? = none := by rw [hwalk]
  have hfound : ((t.setAll before).setAt a v).1.get a.path = .ok v := by
    have hthrough := get_graft_append hok []
    rwa [hwalk, List.append_nil] at hthrough
  have hparting : ∀ write ∈ later, write.1.path.Parting a.path := fun write hwrite =>
    Path.parting_of_not_prefix (hlater write hwrite).1 (hlater write hwrite).2
  have hend := get_setAll_of_parting hparting (wildcard_not_mem_of_graft hok) hfound
  have hrun : t.setAll (before ++ (a, v) :: later) =
      ((t.setAll before).setAt a v).1.setAll later := by
    rw [setAll, List.foldl_append]
    rfl
  rw [getAt, hrun, hend]

/-! ## 3. A run that keeps adding next to the value -/

namespace Example

/-- `{"list": [null]}` -/
def first : Document := .object [("list", .array [.null])]

/-- A name in null, which fails. -/
def earlier : List (Address × Document) :=
  [(.ofPath [.key "list", .index 0, .key "x"], .bool false)]

/-- `a.b` -/
def kept : Address := .ofPath [.key "a", .key "b"]

/-- An index in a new object next to `b`, an index and a wildcard in the object that holds `b`, all
of which fail, a name next to `b`, and an element elsewhere. -/
def afterwards : List (Address × Document) :=
  [(.ofPath [.key "a", .key "c", .index 0], .null), (.ofPath [.key "a", .index 0], .null),
    (.ofPath [.key "a", .wildcard], .null), (.ofPath [.key "a", .key "c", .key "d"], .bool false),
    (.ofPath [.key "list", .index 0], .bool false)]

theorem getAt_setAll_next_to_it :
    ((first.setAll earlier).setAt kept (.bool true)).2 = none ∧
      (∀ write ∈ afterwards, ¬ write.1.path <+: kept.path ∧ ¬ kept.path <+: write.1.path) ∧
      (first.setAll (earlier ++ (kept, .bool true) :: afterwards)).getAt kept =
        .ok (.bool true) := by
  have hset : ((first.setAll earlier).setAt kept (.bool true)).2 = none := by decide +kernel
  have hlater : ∀ write ∈ afterwards,
      ¬ write.1.path <+: kept.path ∧ ¬ kept.path <+: write.1.path := by decide +kernel
  exact ⟨hset, hlater, getAt_setAll hset hlater kept.name⟩

end Example

end DocPath.Tree
