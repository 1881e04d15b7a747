import DocPath.Proofs.Congruence
import DocPath.Session

/-!
# Sessions

What a program can rely on from one call to the next, whatever it calls in between and whether the
calls succeed or fail.

* Names stay distinct, in the document and in all copies of it (`WellFormed.afterAll`): no call
  makes an object in which a name repeats, as long as the values handed in are none.
* A copy that was put aside stays as it is until another one is put aside under its name
  (`get?_copies_afterAll`).  So a copy undoes whatever was done to the document since then, be it
  half of an assignment that failed (`restore?_afterAll_save`), and the document that it brings back
  equals the copy unless it holds what is no number (`equals_restored_iff`).
* Reports are only added (`events_afterAll`), and going back to a copy takes none of them back.

Each is shown for one act and then by induction for a whole program of them.
-/

namespace DocPath

/-! ## 1. Edits of fields -/

namespace Fields

variable {α : Type} {key : String} {x : α} {fs : Fields α} {field : String × α}

/-- A field is the one that was written, or it was there. -/
theorem mem_of_mem_insert (h : field ∈ insert key x fs) : field = (key, x) ∨ field ∈ fs := by
  induction fs with
  | nil => exact .inl (List.mem_singleton.1 h)
  | cons first fs ih =>
    obtain ⟨k, y⟩ := first
    rw [insert] at h
    split at h
    · next hk =>
      rw [hk] at h
      exact (List.mem_cons.1 h).imp_right (List.mem_cons_of_mem _)
    · rcases List.mem_cons.1 h with rfl | h
      · exact .inr List.mem_cons_self
      · exact (ih h).imp_right (List.mem_cons_of_mem _)

/-- Collecting pairs makes no field that is not among them. -/
theorem mem_of_mem_ofList {pairs : List (String × α)} (h : field ∈ ofList pairs) :
    field ∈ pairs := by
  have run : ∀ (pairs : List (String × α)) (fs : Fields α),
      field ∈ pairs.foldl (fun fs pair => insert pair.1 pair.2 fs) fs →
        field ∈ fs ∨ field ∈ pairs := by
    intro pairs
    induction pairs with
    | nil => exact fun _ h => .inl h
    | cons pair pairs ih =>
      intro fs h
      rcases ih _ h with h | h
      · rcases mem_of_mem_insert h with rfl | h
        · exact .inr List.mem_cons_self
        · exact .inl h
      · exact .inr (List.mem_cons_of_mem _ h)
  exact (run pairs [] h).resolve_left List.not_mem_nil

namespace Edit

/-- The value that an edit hands in. -/
def value? : Edit α → Option α
  | insert _ x => some x
  | erase _ => none
  | overwrite _ x => some x
  | supply _ x => some x
  | rebuild => none

/-- An edit keeps names distinct. -/
theorem nodup_keys_run (h : fs.keys.Nodup) (edit : Edit α) : (edit.run fs).2.keys.Nodup := by
  cases edit with
  | insert key x => exact nodup_keys_insert h
  | erase key => exact nodup_keys_erase h
  | overwrite key x =>
    rw [run]
    split
    · exact nodup_keys_insert h
    · exact h
  | supply key x =>
    rw [run]
    split
    · exact h
    · exact nodup_keys_insert h
  | rebuild => exact nodup_keys_ofList fs

/-- After an edit the value of a field is the one that was handed in, or the field was there. -/
theorem mem_of_mem_run {edit : Edit α} (h : field ∈ (edit.run fs).2) :
    edit.value? = some field.2 ∨ field ∈ fs := by
  have written {key : String} {x : α} (h : field ∈ Fields.insert key x fs) :
      some x = some field.2 ∨ field ∈ fs :=
    (mem_of_mem_insert h).imp_left fun e => by rw [e]
  cases edit with
  | insert key x => exact written h
  | erase key => exact .inr (List.mem_of_mem_eraseP h)
  | overwrite key x =>
    rw [run] at h
    split at h
    · exact written h
    · exact .inr h
  | supply key x =>
    rw [run] at h
    split at h
    · exact .inr h
    · exact written h
  | rebuild => exact .inr (mem_of_mem_ofList h)

end Edit

end Fields

/-! ## 2. Nodes that are there -/

namespace Tree

variable {ν : Type} {t u v : Tree ν} {steps : List ExactStep} {p : Path}

theorem WellFormed.enter? {s : ExactStep} (ht : t.WellFormed) (h : t.enter? s = some u) :
    u.WellFormed := by
  unfold Tree.enter? at h
  split at h
  · exact (wellFormed_object_iff.1 ht).2 _ (Fields.mem_of_get? h)
  · exact wellFormed_array_iff.1 ht u (List.mem_of_getElem? h)
  · cases h

theorem WellFormed.focus? (ht : t.WellFormed) (h : t.focus? steps = some u) : u.WellFormed := by
  induction steps generalizing t with
  | nil =>
    cases h
    exact ht
  | cons s rest ih =>
    obtain ⟨c, hc, hrest⟩ := Option.bind_eq_some_iff.1 h
    exact ih (ht.enter? hc) hrest

/-- A node may be changed into any other that is well formed. -/
theorem WellFormed.modify {f : Tree ν → Tree ν} (ht : t.WellFormed) (hf : ∀ u, (f u).WellFormed)
    (steps : List ExactStep) : (t.modify f steps).WellFormed := by
  induction steps generalizing t with
  | nil => exact hf t
  | cons s rest ih =>
    unfold Tree.modify
    split
    · next name fields =>
      split
      · next u hu =>
        have hu : u.WellFormed := (wellFormed_object_iff.1 ht).2 _ (Fields.mem_of_get? hu)
        exact ht.insert (ih hu) name
      · exact ht
    · next place items =>
      split
      · next u hu =>
        have hitems := wellFormed_array_iff.1 ht
        have hu : u.WellFormed := hitems u (List.mem_of_getElem? hu)
        refine .array ?_
        intro c hc
        rcases List.mem_or_eq_of_mem_set hc with hc | rfl
        · exact hitems c hc
        · exact ih hu
      · exact ht
    · exact ht

/-- What a look-up finds is well formed. -/
theorem WellFormed.get (ht : t.WellFormed) (h : t.get p = .ok u) : u.WellFormed := by
  induction p generalizing t with
  | nil =>
    cases h
    exact ht
  | cons s rest ih =>
    rw [Tree.get] at h
    split at h
    · cases h
    · next c hc =>
      have hc := ht.child hc
      split at h
      · cases h
        exact hc
      · exact ih hc h

theorem WellFormed.getFrom {source : PathSource} (ht : t.WellFormed)
    (h : (t.getFrom source).1 = .ok u) : u.WellFormed := by
  unfold Tree.getFrom at h
  split at h
  · next a _ =>
    unfold getAt at h
    split at h
    · next found hfound =>
      cases h
      exact ht.get hfound
    · cases h
  · cases h

theorem WellFormed.setFrom (ht : t.WellFormed) (hv : v.WellFormed) (source : PathSource) :
    (t.setFrom source v).1.1.WellFormed := by
  unfold Tree.setFrom
  split
  · exact ht.setAt hv _
  · exact ht

end Tree

/-! ## 3. Names stay distinct -/

namespace Session

variable {s : Session} {act : Act} {acts : List Act} {name : String}

/-- The names of the fields are distinct in every object of the document and of its copies. -/
structure WellFormed (s : Session) : Prop where
  document : s.document.WellFormed
  copies : ∀ copy ∈ s.copies, copy.2.WellFormed

/-- The value that an act hands in. -/
def Act.value? : Act → Option Document
  | .set _ v => some v
  | .edit _ change => change.value?
  | .push _ v => some v
  | _ => none

theorem WellFormed.set (hs : s.WellFormed) {v : Document} (hv : v.WellFormed)
    (source : PathSource) : (s.set source v).2.WellFormed :=
  ⟨hs.document.setFrom hv source, hs.copies⟩

theorem WellFormed.copy (hs : s.WellFormed) (source target : PathSource) :
    (s.copy source target).2.WellFormed := by
  unfold Session.copy
  split
  · next v s' hget =>
    obtain ⟨hfound, rfl⟩ := Prod.mk.inj hget
    have hs' : (s.get source).2.WellFormed := ⟨hs.document, hs.copies⟩
    exact hs'.set (hs.document.getFrom hfound) target
  · next failure s' hget =>
    obtain ⟨-, rfl⟩ := Prod.mk.inj hget
    exact ⟨hs.document, hs.copies⟩

theorem WellFormed.editItems {ρ : Type} {edit : List Document → ρ × List Document}
    (hs : s.WellFormed)
    (hedit : ∀ items, (∀ t ∈ items, t.WellFormed) → ∀ t ∈ (edit items).2, t.WellFormed)
    (steps : List ExactStep) : (s.editItems steps edit).2.WellFormed := by
  unfold Session.editItems
  split
  · next items hitems =>
    obtain ⟨u, hu, harray⟩ := Option.bind_eq_some_iff.1 hitems
    have hu := hs.document.focus? hu
    cases u with
    | array _ =>
      cases harray
      have hchanged := Tree.WellFormed.array (hedit _ (Tree.wellFormed_array_iff.1 hu))
      exact ⟨hs.document.modify (fun _ => hchanged) steps, hs.copies⟩
    | null | bool _ | number _ | string _ | object _ => cases harray
  · exact hs

theorem WellFormed.editFields {ρ : Type} {edit : Fields Document → ρ × Fields Document}
    (hs : s.WellFormed)
    (hedit : ∀ fields, (Tree.object fields).WellFormed → (Tree.object (edit fields).2).WellFormed)
    (steps : List ExactStep) : (s.editFields steps edit).2.WellFormed := by
  unfold Session.editFields
  split
  · next fields hfields =>
    obtain ⟨u, hu, hobject⟩ := Option.bind_eq_some_iff.1 hfields
    have hu := hs.document.focus? hu
    cases u with
    | object _ =>
      cases hobject
      exact ⟨hs.document.modify (fun _ => hedit _ hu) steps, hs.copies⟩
    | null | bool _ | number _ | string _ | array _ => cases hobject
  · exact hs

/-- **One act keeps names distinct.** -/
theorem WellFormed.after (hs : s.WellFormed) (hact : ∀ v, act.value? = some v → v.WellFormed) :
    (s.after act).WellFormed := by
  cases act with
  | get source => exact ⟨hs.document, hs.copies⟩
  | set source v => exact hs.set (hact v rfl) source
  | copy source target => exact hs.copy source target
  | save name =>
    refine ⟨hs.document, ?_⟩
    intro copy hcopy
    rcases Fields.mem_of_mem_insert hcopy with rfl | hcopy
    · exact hs.document
    · exact hs.copies copy hcopy
  | restore name =>
    rw [Session.after, restore?]
    cases hcopy : Fields.get? name s.copies with
    | none => exact hs
    | some copy => exact ⟨hs.copies _ (Fields.mem_of_get? hcopy), hs.copies⟩
  | reread =>
    rw [Session.after, Session.reread]
    split
    · next d hread => exact ⟨Document.wellFormed_of_ofText? hread, hs.copies⟩
    · exact hs
  | edit steps edit =>
    refine hs.editFields ?_ steps
    intro fields hfields
    obtain ⟨hnodup, hvalues⟩ := Tree.wellFormed_object_iff.1 hfields
    refine .object (Fields.Edit.nodup_keys_run hnodup edit) ?_
    intro field hfield
    rcases Fields.Edit.mem_of_mem_run hfield with hvalue | hfield
    · exact hact field.2 hvalue
    · exact hvalues field hfield
  | push steps v =>
    refine hs.editItems ?_ steps
    intro items hitems t ht
    rcases List.mem_append.1 ht with ht | ht
    · exact hitems t ht
    · rw [List.mem_singleton.1 ht]
      exact hact v rfl
  | pop steps =>
    refine hs.editItems ?_ steps
    intro items hitems t ht
    exact hitems t (List.dropLast_subset items ht)

/-- **Names stay distinct** through a whole program of acts, whether they succeed or fail. -/
theorem WellFormed.afterAll (hs : s.WellFormed)
    (hacts : ∀ act ∈ acts, ∀ v, act.value? = some v → v.WellFormed) :
    (s.afterAll acts).WellFormed := by
  induction acts generalizing s with
  | nil => exact hs
  | cons act acts ih =>
    obtain ⟨hact, hrest⟩ := List.forall_mem_cons.1 hacts
    exact ih (hs.after hact) hrest

/-! ## 4. Copies and reports -/

/-- The name under which an act puts a copy aside. -/
def Act.saved? : Act → Option String
  | .save name => some name
  | _ => none

theorem Act.eq_save_of_saved? (h : act.saved? = some name) : act = .save name := by
  cases act with
  | save other => exact congrArg Act.save (Option.some.inj h)
  | get _ | set _ _ | copy _ _ | restore _ | reread | edit _ _ | push _ _ | pop _ => cases h

/-- What a session keeps if no copy is put aside: its copies, and the reports so far. -/
structure Keeps (s s' : Session) : Prop where
  copies : s'.copies = s.copies
  events : s.events <+: s'.events

theorem Keeps.trans {s s' s'' : Session} (h : Keeps s s') (h' : Keeps s' s'') : Keeps s s'' :=
  ⟨h'.copies.trans h.copies, h.events.trans h'.events⟩

theorem keeps_get (s : Session) (source : PathSource) : Keeps s (s.get source).2 :=
  ⟨rfl, List.prefix_append _ _⟩

theorem keeps_set (s : Session) (source : PathSource) (v : Document) :
    Keeps s (s.set source v).2 :=
  ⟨rfl, List.prefix_append _ _⟩

theorem keeps_copy (s : Session) (source target : PathSource) :
    Keeps s (s.copy source target).2 := by
  have hget := keeps_get s source
  unfold Session.copy
  split
  · next v s' hfound =>
    rw [hfound] at hget
    exact hget.trans (keeps_set s' target v)
  · next hfailed =>
    rw [hfailed] at hget
    exact hget

theorem keeps_editItems {ρ : Type} (s : Session) (steps : List ExactStep)
    (edit : List Document → ρ × List Document) : Keeps s (s.editItems steps edit).2 := by
  unfold Session.editItems
  split <;> exact ⟨rfl, List.prefix_rfl⟩

theorem keeps_editFields {ρ : Type} (s : Session) (steps : List ExactStep)
    (edit : Fields Document → ρ × Fields Document) : Keeps s (s.editFields steps edit).2 := by
  unfold Session.editFields
  split <;> exact ⟨rfl, List.prefix_rfl⟩

/-- **One act keeps copies and reports**, unless it is to put a copy aside. -/
theorem keeps_after (h : act.saved? = none) : Keeps s (s.after act) := by
  cases act with
  | get source => exact keeps_get s source
  | set source v => exact keeps_set s source v
  | copy source target => exact keeps_copy s source target
  | save name => cases h
  | restore name =>
    rw [after, restore?]
    cases Fields.get? name s.copies <;> exact ⟨rfl, List.prefix_rfl⟩
  | reread =>
    rw [after, Session.reread]
    split <;> exact ⟨rfl, List.prefix_rfl⟩
  | edit steps change => exact keeps_editFields s steps _
  | push steps v => exact keeps_editItems s steps _
  | pop steps => exact keeps_editItems s steps _

theorem get?_copies_save (s : Session) (name other : String) :
    Fields.get? name (s.save other).copies =
      if other = name then some s.document else Fields.get? name s.copies :=
  Fields.get?_insert name other s.document s.copies

/-- An act leaves all copies but the one that it puts aside. -/
theorem get?_copies_after (h : act.saved? ≠ some name) :
    Fields.get? name (s.after act).copies = Fields.get? name s.copies := by
  cases hsaved : act.saved? with
  | none => rw [(keeps_after hsaved).copies]
  | some other =>
    obtain rfl := Act.eq_save_of_saved? hsaved
    rw [after, get?_copies_save, if_neg fun e => h (congrArg some e)]

theorem get?_copies_afterAll (h : ∀ act ∈ acts, act.saved? ≠ some name) :
    Fields.get? name (s.afterAll acts).copies = Fields.get? name s.copies := by
  induction acts generalizing s with
  | nil => rfl
  | cons act acts ih =>
    obtain ⟨hact, hrest⟩ := List.forall_mem_cons.1 h
    exact (ih hrest).trans (get?_copies_after hact)

/-- A copy is there until another one is put aside under its name. -/
theorem get?_copies_afterAll_save (h : ∀ act ∈ acts, act.saved? ≠ some name) :
    Fields.get? name ((s.save name).afterAll acts).copies = some s.document := by
  rw [get?_copies_afterAll h, get?_copies_save, if_pos rfl]

/-- **A copy undoes whatever came after it.**  Whatever is done to a document after a copy was put
aside, an assignment that fails half-way included, going back to the copy brings the document back
and nothing else, unless another copy was put aside under its name. -/
theorem restore?_afterAll_save (h : ∀ act ∈ acts, act.saved? ≠ some name) :
    ((s.save name).afterAll acts).restore? name =
      some { (s.save name).afterAll acts with document := s.document } := by
  rw [restore?, get?_copies_afterAll_save h]
  rfl

/-- What a copy brings back equals the copy, unless it holds what is no number. -/
theorem equals_restored_iff (hs : s.WellFormed) (h : ∀ act ∈ acts, act.saved? ≠ some name) :
    (((s.save name).afterAll acts).after (.restore name)).equals name = true ↔
      .nan ∉ s.document.numbers := by
  rw [after, restore?_afterAll_save h, Option.getD_some, equals]
  simp only [get?_copies_afterAll_save h]
  exact Document.same_self_iff hs.document

theorem events_after (s : Session) (act : Act) : s.events <+: (s.after act).events := by
  cases hsaved : act.saved? with
  | none => exact (keeps_after hsaved).events
  | some name =>
    obtain rfl := Act.eq_save_of_saved? hsaved
    exact List.prefix_rfl

/-- **Reports are only added**, and going back to a copy takes none of them back. -/
theorem events_afterAll (s : Session) (acts : List Act) :
    s.events <+: (s.afterAll acts).events := by
  induction acts generalizing s with
  | nil => exact List.prefix_rfl
  | cons act acts ih => exact (events_after s act).trans (ih (s.after act))

end Session

end DocPath
