import DocPath.Document
import DocPath.Proofs.Frames
import DocPath.Tree.Focus

/-!
# What an assignment reports

An assignment reports that it begins, every step that it takes towards its last segment, every
object that it makes on the way, and its arrival at the node that is to hold the value.  All this
can be told from the tree before it and the tree after it (`told_setEvents`), whether it succeeds
or fails.

* The objects that it reports are those that the path goes through before its last segment and that
  are there after the assignment but not before it (`newNames`).
* The steps that it reports lead up to the last segment, or to the first one before it that cannot
  be applied to the node it meets; this node is there after the assignment (`StopsAt`).  Only in the
  first case it reports its arrival.

All of it is shown along the path, one step of the walk at a time.  What carries the induction is
that below the first segment the trees before and after are those that the rest of the walk starts
from and leaves behind (`node?_of_slot`, `node?_refill`).
-/

namespace DocPath

/-! ## 1. Reading reports -/

/-- What the events with this message say in a field, in order. -/
def Event.told (message field : String) (events : List Event) : List String :=
  (events.filter fun event => event.message == message).filterMap fun event =>
    Fields.get? field event.fields

theorem Event.told_append (message field : String) (events events' : List Event) :
    told message field (events ++ events') =
      told message field events ++ told message field events' := by
  rw [told, List.filter_append, List.filterMap_append]
  rfl

namespace Tree

variable {ν : Type} {s s' : Segment} {p q rest before : Path} {t t' u u' v w : Tree ν}
  {fault : Fault}

/-! ## 2. Nodes that are there -/

/-- The node that a segment leads to, if it is there. -/
def step? (s : Segment) (t : Tree ν) : Option (Tree ν) :=
  match s with
  | .key name => t.enter? (.field name)
  | .index place => t.enter? (.element place.toInt)
  | .wildcard => none

/-- The node that a path leads to, if all nodes of the path are there. -/
def node? (t : Tree ν) : Path → Option (Tree ν)
  | [] => some t
  | s :: rest => (t.step? s).bind fun u => node? u rest

theorem node?_cons (t : Tree ν) (s : Segment) (rest : Path) :
    t.node? (s :: rest) = (t.step? s).bind fun u => u.node? rest := rfl

theorem step?_index (place : Int64) (items : List (Tree ν)) :
    (array items).step? (.index place) = element? items place := by
  rw [step?, element?]
  cases place.toInt with
  | ofNat n => rfl
  | negSucc n => rfl

/-- An assignment steps to the node that is there, or to an object that it makes for a name. -/
theorem step?_of_slot (h : t.slot s = .ok u) :
    t.step? s = some u ∧ (∀ whole, t.created? whole s = none) ∨
      ∃ name, s = .key name ∧ t.step? s = none ∧ u = object [] ∧
        ∀ whole, t.created? whole s = some (.objectCreated whole name) := by
  rcases slot_cases h with ⟨name, fields, rfl, rfl, hg⟩ | ⟨name, fields, rfl, rfl, hg, rfl⟩ |
    ⟨place, items, rfl, rfl, he⟩
  · exact .inl ⟨hg, fun whole => by simp [created?, hg]⟩
  · exact .inr ⟨name, rfl, hg, rfl, fun whole => by simp [created?, hg]⟩
  · exact .inl ⟨by rw [step?_index, he], fun whole => rfl⟩

/-- Where an assignment cannot step there is no node. -/
theorem step?_of_slot_error (h : t.slot s = .error fault) : t.step? s = none := by
  cases hstep : t.step? s with
  | none => rfl
  | some u =>
    cases s with
    | key name =>
      cases t with
      | object fields => cases h
      | null | bool _ | number _ | string _ | array _ => cases hstep
    | index place =>
      cases t with
      | array items =>
        rw [step?_index] at hstep
        simp [slot, hstep] at h
      | null | bool _ | number _ | string _ | object _ =>
        rw [step?] at hstep
        cases hplace : place.toInt <;> simp [hplace, enter?] at hstep
    | wildcard => cases hstep

/-- After the step back up the segment leads to the new node, which is there. -/
theorem step?_refill (h : t.slot s = .ok u) (w : Tree ν) : (t.refill s w).step? s = some w := by
  rcases name_or_place_of_slot h with ⟨name, fields, rfl, rfl⟩ | ⟨place, items, rfl, rfl, he⟩
  · simp [refill, step?, enter?, Fields.get?_insert]
  · rw [refill, step?_index, element?_set_self he]

/-- After the step back up the nodes below the segment are those of the new node. -/
theorem node?_refill (h : t.slot s = .ok u) (w : Tree ν) (rest : Path) :
    (t.refill s w).node? (s :: rest) = w.node? rest := by
  rw [node?_cons, step?_refill h, Option.bind_some]

/-- Below an object without fields nothing is there. -/
theorem node?_object_nil (h : p ≠ []) : (object [] : Tree ν).node? p = none := by
  cases p with
  | nil => exact absurd rfl h
  | cons s rest =>
    cases s with
    | key name => rfl
    | index place =>
      rw [node?_cons, step?]
      cases place.toInt <;> rfl
    | wildcard => rfl

/-- The nodes below a segment are those of the node that an assignment steps to; if it makes that
node, there are none. -/
theorem node?_of_slot (h : t.slot s = .ok u) (hrest : rest ≠ []) :
    t.node? (s :: rest) = u.node? rest := by
  rw [node?_cons]
  rcases step?_of_slot h with ⟨hstep, -⟩ | ⟨name, -, hstep, rfl, -⟩
  · rw [hstep, Option.bind_some]
  · rw [hstep, node?_object_nil hrest, Option.bind_none]

/-! ## 3. What is new, and where a walk stops -/

/-- The name of the field that a path leads to, if the field is in `t'` but not in `t`. -/
def newName? (t t' : Tree ν) (p : Path) : Option String :=
  match p.getLast? with
  | some (.key name) => if (t.node? p).isNone ∧ (t'.node? p).isSome then some name else none
  | _ => none

/-- The names of the fields that a path goes through before its last segment and that are in `t'`
but not in `t`, outermost first. -/
def newNames (t t' : Tree ν) (p : Path) : List String :=
  (List.range (p.length - 1)).filterMap fun n => newName? t t' (p.take (n + 1))

/-- `s` is a segment of `p` before the last one, the segments before it lead to a node of `t`, and
an assignment cannot step from this node through `s`. -/
def StopsAt (t : Tree ν) (p before : Path) (s : Segment) (fault : Fault) : Prop :=
  ∃ (after : Path) (u : Tree ν), p = before ++ s :: after ∧ after ≠ [] ∧
    t.node? before = some u ∧ u.slot s = .error fault

/-- Nothing is new in a tree that stays as it is. -/
theorem newNames_self (t : Tree ν) (p : Path) : newNames t t p = [] := by
  refine List.filterMap_eq_nil_iff.2 ?_
  intro n _
  rw [newName?]
  cases ht : t.node? (p.take (n + 1)) <;> split <;> simp_all

theorem newName?_cons (hrest : rest ≠ []) (h : t.node? (s :: rest) = u.node? rest)
    (h' : t'.node? (s :: rest) = u'.node? rest) :
    newName? t t' (s :: rest) = newName? u u' rest := by
  rw [newName?, newName?, h, h', List.getLast?_cons_of_ne_nil hrest]

/-- What is new below the first segment is what is new below the nodes that it leads to. -/
theorem newNames_cons (hq : q ≠ [])
    (h : ∀ rest, rest ≠ [] → t.node? (s :: rest) = u.node? rest)
    (h' : ∀ rest, rest ≠ [] → t'.node? (s :: rest) = u'.node? rest) :
    newNames t t' (s :: q) = (newName? t t' [s]).toList ++ newNames u u' q := by
  have hlength : (s :: q).length - 1 = (q.length - 1) + 1 := by
    have := List.length_pos_iff.2 hq
    simp only [List.length_cons]
    omega
  have hbelow (n : Nat) : newName? t t' ((s :: q).take (n + 1 + 1)) =
      newName? u u' (q.take (n + 1)) := by
    have hne : q.take (n + 1) ≠ [] := by simp [hq]
    exact newName?_cons hne (h _ hne) (h' _ hne)
  rw [newNames, hlength, List.range_succ_eq_map, List.filterMap_cons, List.filterMap_map, newNames]
  have hmap : (fun n => newName? t t' ((s :: q).take (n + 1))) ∘ Nat.succ =
      fun n => newName? u u' (q.take (n + 1)) := funext hbelow
  rw [hmap]
  cases hfirst : newName? t t' [s] <;> simp [hfirst]

/-- A step makes an object exactly if there is a new one behind its segment. -/
theorem told_created? (h : t.slot s = .ok u) (whole : Path) (w : Tree ν) :
    Event.told "creating intermediate object" "key" (t.created? whole s).toList =
      (newName? t (t.refill s w) [s]).toList := by
  have hafter : (t.refill s w).node? [s] = some w := node?_refill h w []
  rcases step?_of_slot h with ⟨hstep, hnone⟩ | ⟨name, rfl, hstep, -, hsome⟩
  · have hbefore : t.node? [s] = some u := by rw [node?_cons, hstep]; rfl
    have hnew : newName? t (t.refill s w) [s] = none := by
      rw [newName?, hbefore]
      cases s <;> rfl
    rw [hnone, hnew]
    rfl
  · have hbefore : t.node? [.key name] = none := by rw [node?_cons, hstep]; rfl
    have hnew : newName? t (t.refill (.key name) w) [.key name] = some name := by
      simp [newName?, hbefore, hafter]
    rw [hsome, hnew]
    rfl

/-- A walk that stops at its first segment stops there only. -/
theorem stopsAt_of_slot_error (h : t.slot s = .error fault) {fault' : Fault}
    (hstop : StopsAt t (s :: q) before s' fault') : before = [] ∧ s' = s ∧ fault' = fault := by
  obtain ⟨after, u, hp, -, hu, hs'⟩ := hstop
  cases before with
  | nil =>
    cases hp
    cases hu
    cases h.symm.trans hs'
    exact ⟨rfl, rfl, rfl⟩
  | cons b before =>
    cases hp
    rw [node?_cons, step?_of_slot_error h] at hu
    cases hu

/-- A walk that gets past its first segment stops where the rest of it stops. -/
theorem stopsAt_cons_iff (h : t.slot s = .ok u) (w : Tree ν) :
    StopsAt (t.refill s w) (s :: q) before s' fault ↔
      ∃ before', before = s :: before' ∧ StopsAt w q before' s' fault := by
  constructor
  · rintro ⟨after, x, hp, hafter, hx, hs'⟩
    cases before with
    | nil =>
      cases hp
      cases hx
      have hstep := step?_refill h w
      rw [step?_of_slot_error hs'] at hstep
      cases hstep
    | cons b before =>
      cases hp
      rw [node?_refill h] at hx
      exact ⟨before, rfl, after, x, rfl, hafter, hx, hs'⟩
  · rintro ⟨before', rfl, after, x, rfl, hafter, hx, hs'⟩
    exact ⟨after, x, rfl, hafter, by rw [node?_refill h, hx], hs'⟩

/-! ## 4. Walks -/

variable {message field : String}

theorem setSteps_of_slot_error (h : t.slot s = .error fault) (hq : q ≠ []) (whole : Path) :
    t.setSteps whole (s :: q) = [.setStep s t.kind] := by
  cases q with
  | nil => exact absurd rfl hq
  | cons s' q => simp only [setSteps, h]

theorem setSteps_of_slot (h : t.slot s = .ok u) (hq : q ≠ []) (whole : Path) :
    t.setSteps whole (s :: q) =
      .setStep s t.kind :: ((t.created? whole s).toList ++ u.setSteps whole q) := by
  cases q with
  | nil => exact absurd rfl hq
  | cons s' q => simp only [setSteps, h]

theorem message_of_created? {whole : Path} {event : Event} (h : t.created? whole s = some event) :
    event.message = "creating intermediate object" := by
  unfold created? at h
  split at h
  · split at h <;> cases h
    rfl
  · cases h

/-- Of the objects that a step makes nothing else is said. -/
theorem told_created?_of_ne (h : message ≠ "creating intermediate object") (whole : Path)
    (s : Segment) (t : Tree ν) : Event.told message field (t.created? whole s).toList = [] := by
  cases hmade : t.created? whole s with
  | none => rfl
  | some event =>
    have hne : ¬ "creating intermediate object" = message := fun e => h e.symm
    simp [Event.told, message_of_created? hmade, hne]

/-- A step that is followed by others says that it is taken, then what it makes, and then what the
others say. -/
theorem told_setSteps_of_slot (h : t.slot s = .ok u) (hq : q ≠ []) (whole : Path) :
    Event.told message field (t.setSteps whole (s :: q)) =
      Event.told message field [.setStep s t.kind] ++
        (Event.told message field (t.created? whole s).toList ++
          Event.told message field (u.setSteps whole q)) := by
  rw [setSteps_of_slot h hq, ← Event.told_append, ← Event.told_append, List.singleton_append]

/-- The objects that a walk reports are the new ones. -/
theorem told_setSteps_objects (v t : Tree ν) (whole p : Path) :
    Event.told "creating intermediate object" "key" (t.setSteps whole p) =
      newNames t (graft v t p).tree p := by
  induction p generalizing t with
  | nil => rfl
  | cons s q ih =>
    cases q with
    | nil => rfl
    | cons s' rest =>
      have hq : s' :: rest ≠ [] := List.cons_ne_nil s' rest
      cases hs : t.slot s with
      | error fault =>
        rw [setSteps_of_slot_error hs hq, graft_cons_of_slot_error hs, newNames_self]
        rfl
      | ok u =>
        have hstep : Event.told "creating intermediate object" "key" [.setStep s t.kind] = [] := rfl
        rw [told_setSteps_of_slot hs hq, hstep, List.nil_append, graft_cons_of_slot hs,
          told_created? hs whole _, ih u,
          newNames_cons hq (fun _ => node?_of_slot hs) fun _ _ => node?_refill hs _ _]

/-- A walk that stops before its last segment fails, and reports the steps up to there. -/
theorem told_setSteps_of_stopsAt (v : Tree ν) (whole : Path)
    (h : StopsAt (graft v t p).tree p before s' fault) :
    (graft v t p).fault? = some fault ∧
      Event.told "set step" "segment" (t.setSteps whole p) = (before ++ [s']).map Segment.print ∧
      Event.told "set assign" "segment" (t.setSteps whole p) = [] := by
  induction p generalizing t before with
  | nil =>
    obtain ⟨after, u, hp, -⟩ := h
    simp at hp
  | cons s q ih =>
    have hq : q ≠ [] := by
      rintro rfl
      obtain ⟨after, u, hp, hafter, -⟩ := h
      cases before with
      | nil => exact hafter (List.cons.inj hp).2.symm
      | cons b before => simp at hp
    cases hs : t.slot s with
    | error fault' =>
      rw [graft_cons_of_slot_error hs] at h ⊢
      obtain ⟨rfl, rfl, rfl⟩ := stopsAt_of_slot_error hs h
      rw [setSteps_of_slot_error hs hq]
      exact ⟨rfl, rfl, rfl⟩
    | ok u =>
      rw [graft_cons_of_slot hs] at h ⊢
      obtain ⟨before', rfl, hstop⟩ := (stopsAt_cons_iff hs _).1 h
      obtain ⟨hfault, hsteps, harrival⟩ := ih hstop
      rw [told_setSteps_of_slot hs hq, told_setSteps_of_slot hs hq,
        told_created?_of_ne (by decide), told_created?_of_ne (by decide), hsteps, harrival]
      exact ⟨hfault, rfl, rfl⟩

/-- A walk that stops at no segment before its last one reports all steps up to it, and that it
arrives. -/
theorem told_setSteps_of_not_stopsAt (v : Tree ν) (whole : Path) (hp : p ≠ [])
    (h : ¬ ∃ before s fault, StopsAt (graft v t p).tree p before s fault) :
    Event.told "set step" "segment" (t.setSteps whole p) = p.dropLast.map Segment.print ∧
      Event.told "set assign" "segment" (t.setSteps whole p) = [(p.getLast hp).print] := by
  induction p generalizing t with
  | nil => exact absurd rfl hp
  | cons s q ih =>
    by_cases hq : q = []
    · subst hq
      exact ⟨rfl, rfl⟩
    · cases hs : t.slot s with
      | error fault =>
        rw [graft_cons_of_slot_error hs] at h
        exact absurd ⟨[], s, fault, q, t, rfl, hq, rfl, hs⟩ h
      | ok u =>
        rw [graft_cons_of_slot hs] at h
        have hbelow : ¬ ∃ before s fault, StopsAt (graft v u q).tree q before s fault := by
          rintro ⟨before, s', fault, hstop⟩
          exact h ⟨s :: before, s', fault, (stopsAt_cons_iff hs _).2 ⟨before, rfl, hstop⟩⟩
        obtain ⟨hsteps, harrival⟩ := ih hq hbelow
        rw [told_setSteps_of_slot hs hq, told_setSteps_of_slot hs hq,
          told_created?_of_ne (by decide), told_created?_of_ne (by decide), hsteps, harrival,
          List.dropLast_cons_of_ne_nil hq, List.getLast_cons hq]
        exact ⟨rfl, rfl⟩

/-- On the way no assignment begins. -/
theorem message_of_mem_setSteps {whole : Path} {event : Event} (h : event ∈ t.setSteps whole p) :
    event.message ≠ "set" := by
  induction p generalizing t with
  | nil => cases h
  | cons s q ih =>
    by_cases hq : q = []
    · subst hq
      rw [List.mem_singleton.1 h]
      simp [Event.message]
    · cases hs : t.slot s with
      | error fault =>
        rw [setSteps_of_slot_error hs hq] at h
        rw [List.mem_singleton.1 h]
        simp [Event.message]
      | ok u =>
        rw [setSteps_of_slot hs hq, List.mem_cons, List.mem_append, Option.mem_toList] at h
        rcases h with rfl | hmade | hbelow
        · simp [Event.message]
        · simp [message_of_created? hmade]
        · exact ih hbelow

/-! ## 5. Assignments at addresses -/

/-- **What an assignment reports can be told from the tree before it and the tree after it**,
whether it succeeds or fails.  It reports first that it begins, and that only once.  The objects
that it reports as made are the new ones that its path goes through before its last segment,
outermost first.  If the tree after it shows a segment before the last one that the walk cannot get
through, then the assignment has failed there; the steps that it reports are those up to this
segment, and it reports no arrival.  If there is none, the steps are all those before the last
segment, and it reports its arrival at the last one. -/
theorem told_setEvents {a : Address} (h : a.path ≠ []) (t v : Tree ν) :
    (∃ steps, t.setEvents a.path = .setStarted a.path :: steps ∧
      ∀ event ∈ steps, event.message ≠ "set") ∧
    Event.told "creating intermediate object" "key" (t.setEvents a.path) =
      newNames t (t.setAt a v).1 a.path ∧
    (∀ before s fault, StopsAt (t.setAt a v).1 a.path before s fault →
      (t.setAt a v).2 = some (.walk a.name fault) ∧
        Event.told "set step" "segment" (t.setEvents a.path) =
          (before ++ [s]).map Segment.print ∧
        Event.told "set assign" "segment" (t.setEvents a.path) = []) ∧
    ((¬ ∃ before s fault, StopsAt (t.setAt a v).1 a.path before s fault) →
      Event.told "set step" "segment" (t.setEvents a.path) = a.path.dropLast.map Segment.print ∧
        Event.told "set assign" "segment" (t.setEvents a.path) = [(a.path.getLast h).print]) := by
  have hbegin {message field : String} (hne : message ≠ "set") :
      Event.told message field (t.setEvents a.path) =
        Event.told message field (t.setSteps a.path a.path) := by
    have hne' : ¬ "set" = message := fun e => hne e.symm
    rw [setEvents, ← List.singleton_append, Event.told_append]
    simp [Event.told, Event.message, hne']
  rw [setAt_of_ne_nil h, hbegin (by decide), hbegin (by decide), hbegin (by decide)]
  refine ⟨⟨_, rfl, fun _ => message_of_mem_setSteps⟩, told_setSteps_objects v t _ _, ?_, ?_⟩
  · intro before s fault hstop
    obtain ⟨hfault, htold⟩ := told_setSteps_of_stopsAt v a.path hstop
    exact ⟨by rw [hfault]; rfl, htold⟩
  · exact told_setSteps_of_not_stopsAt v a.path h

namespace Example

/-- `{"list": [{"x": null}]}` -/
def reported : Document := .object [("list", .array [.object [("x", .null)]])]

/-- `list[0].a.b[3].x`, which cannot get through `[3]` behind two objects of its own. -/
def lost : Address := .ofPath [.key "list", .index 0, .key "a", .key "b", .index 3, .key "x"]

/-- `{"list": [{"x": null, "a": {"b": {}}}]}` -/
def leftBehind : Document :=
  .object [("list", .array [.object [("x", .null), ("a", .object [("b", .object [])])]])]

/-- `list[0].a.b.x`, which makes the same two objects and its last field. -/
def found : Address := .ofPath [.key "list", .index 0, .key "a", .key "b", .key "x"]

theorem told_lost_and_found :
    lost.path ≠ [] ∧ (reported.setAt lost .null).1 = leftBehind ∧
      Event.told "creating intermediate object" "key" (reported.setEvents lost.path) =
        ["a", "b"] ∧
      StopsAt leftBehind lost.path (lost.path.take 4) (.index 3) (.notArray .object) ∧
      Event.told "set step" "segment" (reported.setEvents lost.path) =
        ["list", "[0]", "a", "b", "[3]"] ∧
      Event.told "set assign" "segment" (reported.setEvents lost.path) = [] ∧
      Event.told "creating intermediate object" "key" (reported.setEvents found.path) =
        ["a", "b"] := by
  have hlost : lost.path ≠ [] := by decide
  have hleft : (reported.setAt lost .null).1 = leftBehind := by decide +kernel
  have hstop : StopsAt leftBehind lost.path (lost.path.take 4) (.index 3) (.notArray .object) :=
    ⟨[.key "x"], .object [], rfl, by decide, by decide +kernel, rfl⟩
  obtain ⟨-, hobjects, hstops, -⟩ := told_setEvents hlost reported .null
  obtain ⟨-, hfound, -, -⟩ := told_setEvents (a := found) (by decide) reported .null
  rw [hleft] at hobjects hstops
  obtain ⟨-, hsteps, harrival⟩ := hstops _ _ _ hstop
  have hnew : newNames reported leftBehind lost.path = ["a", "b"] := by decide +kernel
  have hnew' : newNames reported (reported.setAt found .null).1 found.path = ["a", "b"] := by
    decide +kernel
  have hprint : (lost.path.take 4 ++ [Segment.index 3]).map Segment.print =
      ["list", "[0]", "a", "b", "[3]"] := by decide +kernel
  exact ⟨hlost, hleft, hobjects.trans hnew, hstop, hsteps.trans hprint, harrival,
    hfound.trans hnew'⟩

end Example

end Tree

end DocPath
