import DocPath.Address
import DocPath.Document
import DocPath.Proofs.Step

/-!
# Looking up after an assignment

What an assignment that succeeds means for every later look-up.  Two kinds of paths are settled:

* `get_graft_append`: a path that runs through the target reaches exactly what it would reach in
  the value assigned, faults included;
* `get_graft_of_fork`: a path that forks off the target, at two different names or two different
  places, reaches what it reached before.

The second is the harder one, because the fork may lie below objects that the assignment has made:
there the look-up used to stand on null.  What an assignment can go through below an object it has
made is a name, so the fork is between two names, and an object without fields answers a name just
as null does (`get_object_nil_of_fork`).
-/

namespace DocPath

/-- The two paths agree up to a segment where they lead apart.  What comes after it is free. -/
inductive Path.Fork : Path → Path → Prop where
  /-- They lead apart at once. -/
  | here {s s' : Segment} (p q : Path) : s.Apart s' → Fork (s :: p) (s' :: q)
  /-- They agree on a segment and fork later. -/
  | there (s : Segment) {p q : Path} : Fork p q → Fork (s :: p) (s :: q)

namespace Tree

variable {ν : Type} {t t' v : Tree ν} {p q : Path}

/-! ## 1. Paths through the target -/

/-- After a walk that succeeds, a path through its target reaches what it reaches in the value. -/
theorem get_graft_append (h : (graft v t p).fault? = none) (r : Path) :
    (graft v t p).tree.get (p ++ r) = v.get r := by
  induction p generalizing t with
  | nil => rfl
  | cons s rest ih =>
    obtain ⟨u, hu, hrest⟩ := slot_of_graft_cons h
    rw [graft_cons_of_slot hu, List.cons_append,
      get_cons_of_child (ne_wildcard_of_slot hu) (child_refill hu _)]
    exact ih hrest

/-! ## 2. Paths that fork off the target -/

/-- Below an object that an assignment has just made, a path that forks off the assigned one is
looked up as below null. -/
theorem get_object_nil_of_fork (h : (graft v (object []) p).fault? = none) (hf : p.Fork q) :
    (object [] : Tree ν).get q = (null : Tree ν).get q := by
  cases hf with
  | here p q ha =>
    obtain ⟨u, hu, -⟩ := slot_of_graft_cons h
    obtain ⟨name, rfl⟩ := key_of_slot_object_nil hu
    -- what leads apart from a name is a name
    rename_i s'
    cases s' with
    | key other => exact get_cons_congr (child_object_nil other) q
    | index _ => exact ha.elim
    | wildcard => exact ha.elim
  | there s hf =>
    obtain ⟨u, hu, -⟩ := slot_of_graft_cons h
    obtain ⟨name, rfl⟩ := key_of_slot_object_nil hu
    exact get_cons_congr (child_object_nil name) _

/-- After a walk that succeeds, a path that forks off its target reaches what it reached before. -/
theorem get_graft_of_fork (h : (graft v t p).fault? = none) (hf : p.Fork q) :
    (graft v t p).tree.get q = t.get q := by
  induction hf generalizing t with
  | here p q ha =>
    obtain ⟨u, hu, -⟩ := slot_of_graft_cons h
    rw [graft_cons_of_slot hu]
    exact get_cons_congr (child_refill_of_apart hu ha _) q
  | @there s p q hf ih =>
    obtain ⟨u, hu, hrest⟩ := slot_of_graft_cons h
    have hs := ne_wildcard_of_slot hu
    rw [graft_cons_of_slot hu, get_cons_of_child hs (child_refill hu _), ih hrest]
    rcases child_of_slot hu with hc | ⟨hc, rfl⟩
    · rw [get_cons_of_child hs hc]
    -- the look-up stood on null where the assignment has put an object
    · rw [get_cons_of_child hs hc]
      exact get_object_nil_of_fork hrest hf

/-! ## 3. Assignments and look-ups at addresses -/

/-- An assignment that succeeds is a walk that succeeds. -/
theorem graft_of_setAt {a : Address} (h : t.setAt a v = (t', none)) :
    graft v t a.path = ⟨t', none⟩ := by
  unfold setAt set at h
  split at h
  · cases h
  · obtain ⟨htree, hfault⟩ := Prod.mk.inj h
    rw [Option.map_eq_none_iff] at hfault
    rw [← htree, ← hfault]

/-- Look-ups that agree on the path agree at addresses of the same name. -/
theorem getAt_congr {u : Tree ν} {a b : Address} (hname : a.name = b.name)
    (h : t.get a.path = u.get b.path) : t.getAt a = u.getAt b := by
  rw [getAt, getAt, h, hname]

/-- **An assignment that succeeds, seen by every later look-up.**  A path through the target finds
what the rest of it finds in the assigned value, and fails as it fails there, whatever name the
failure goes by; the target itself holds the value.  A path that forks off the target finds what it
found before, or fails with the same failure. -/
theorem getAt_of_setAt {a : Address} (h : t.setAt a v = (t', none)) :
    (∀ r name, t'.getAt ⟨a.path ++ r, name⟩ = v.getAt ⟨r, name⟩) ∧
      t'.getAt a = .ok v ∧
      ∀ b : Address, a.path.Fork b.path → t'.getAt b = t.getAt b := by
  have hg := graft_of_setAt h
  have hok : (graft v t a.path).fault? = none := by rw [hg]
  have hthrough (r : Path) : t'.get (a.path ++ r) = v.get r := by
    have := get_graft_append hok r
    rwa [hg] at this
  refine ⟨?_, ?_, ?_⟩
  · intro r name
    exact getAt_congr rfl (hthrough r)
  · have hself := hthrough []
    rw [List.append_nil] at hself
    rw [getAt, hself]
    rfl
  · intro b hb
    have hfork := get_graft_of_fork hok hb
    rw [hg] at hfork
    exact getAt_congr rfl hfork

/-! ## 4. A fork below an object that the assignment makes -/

namespace Example

/-- `{"a": [{}]}` -/
def before : Document := .object [("a", .array [.object []])]

/-- `a[0].b.c`, where the first element of `a` has no `b` yet. -/
def target : Address := .ofPath [.key "a", .index 0, .key "b", .key "c"]

/-- `a[0].b.e[*]`, which forks off the target below that `b`. -/
def aside : Address := .ofPath [.key "a", .index 0, .key "b", .key "e", .wildcard]

/-- `{"d": true}` -/
def value : Document := .object [("d", .bool true)]

/-- `{"a": [{"b": {"c": {"d": true}}}]}` -/
def after : Document :=
  .object [("a", .array [.object [("b", .object [("c", value)])]])]

theorem getAt_below_made_object :
    before.setAt target value = (after, none) ∧ target.path.Fork aside.path ∧
      after.getAt ⟨target.path ++ [.key "d"], "d"⟩ = .ok (.bool true) ∧
      after.getAt target = .ok value ∧ after.getAt aside = before.getAt aside := by
  have hset : before.setAt target value = (after, none) := by decide +kernel
  have hfork : target.path.Fork aside.path :=
    .there _ (.there _ (.there _ (.here _ _ (show "c" ≠ "e" by decide))))
  obtain ⟨hthrough, hself, haside⟩ := getAt_of_setAt hset
  exact ⟨hset, hfork, hthrough [.key "d"] "d", hself, haside aside hfork⟩

end Example

end Tree

end DocPath
