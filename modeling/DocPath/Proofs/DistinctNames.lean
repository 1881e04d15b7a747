import DocPath.Json.Text
import DocPath.Proofs.Conversion
import DocPath.Proofs.Runs

/-!
# Names stay distinct

The names of the fields are distinct in every object of every tree that is ever at hand
(`Tree.WellFormed`).  It is so from the beginning, because the reader of JSON texts lets the last
value of a name that repeats take the place of the first (`wellFormed_of_ofText?`), and it stays so,
because an assignment adds a field only where its name is missing (`WellFormed.setAll`).

For the reader the invariant is one of its states: the values that are complete are well formed, and
so are the arrays and objects that are still open as far as they have come (`State.WellFormed`).
For an assignment it is one of frames: a tree is well formed if and only if the frames around a node
are and the node is (`wellFormed_fill_iff`).
-/

namespace DocPath

namespace Tree

variable {ν : Type} {t t' u v x : Tree ν}

/-! ## 1. Arrays, objects and frames -/

theorem wellFormed_array_iff {items : List (Tree ν)} :
    (array items).WellFormed ↔ ∀ t ∈ items, t.WellFormed := by
  constructor
  · rintro (_ | _ | _ | _ | h)
    exact h
  · exact .array

theorem wellFormed_object_iff {fields : Fields (Tree ν)} :
    (object fields).WellFormed ↔ fields.keys.Nodup ∧ ∀ field ∈ fields, field.2.WellFormed := by
  constructor
  · intro h
    cases h with
    | object hnodup hfields => exact ⟨hnodup, hfields⟩
  · rintro ⟨hnodup, hfields⟩
    exact .object hnodup hfields

end Tree

variable {ν : Type}

/-- The names of a frame are distinct, and what it holds besides the gap is well formed. -/
def Frame.WellFormed : Frame ν → Prop
  | field before name after =>
    (before.keys ++ name :: after.keys).Nodup ∧ ∀ field ∈ before ++ after, field.2.WellFormed
  | element before after => ∀ t ∈ before ++ after, t.WellFormed

namespace Tree

variable {s : Segment} {p : Path} {t t' u v x : Tree ν}

/-- A node and the frame around it can be judged apart. -/
theorem wellFormed_fill_iff {f : Frame ν} :
    (f.fill t).WellFormed ↔ f.WellFormed ∧ t.WellFormed := by
  cases f with
  | field before name after =>
    simp only [Frame.fill, Frame.WellFormed, wellFormed_object_iff, Fields.keys, List.map_append,
      List.map_cons, List.forall_mem_append, List.forall_mem_cons]
    tauto
  | element before after =>
    simp only [Frame.fill, Frame.WellFormed, wellFormed_array_iff, List.forall_mem_append,
      List.forall_mem_cons]
    tauto

/-- What takes the place of a node has to be well formed, and no more. -/
theorem Replaced.wellFormed (h : Replaced p u v t t') (ht : t.WellFormed)
    (hv : u.WellFormed → v.WellFormed) : t'.WellFormed := by
  obtain ⟨c, -, rfl, rfl⟩ := h
  induction c with
  | nil => exact hv ht
  | cons f c ih =>
    obtain ⟨hf, hfill⟩ := wellFormed_fill_iff.1 ht
    exact wellFormed_fill_iff.2 ⟨hf, ih hfill⟩

/-- Another order of fields repeats no name. -/
theorem Reordered.wellFormed (h : t.Reordered u) (ht : t.WellFormed) : u.WellFormed := by
  induction h with
  | refl _ => exact ht
  | @fields fs gs hperm =>
    obtain ⟨hnodup, hfields⟩ := wellFormed_object_iff.1 ht
    refine wellFormed_object_iff.2 ⟨(hperm.map Prod.fst).nodup_iff.1 hnodup, ?_⟩
    intro field hfield
    exact hfields field (hperm.mem_iff.2 hfield)
  | fill f _ ih =>
    obtain ⟨hf, hfill⟩ := wellFormed_fill_iff.1 ht
    exact wellFormed_fill_iff.2 ⟨hf, ih hfill⟩
  | trans _ _ ih₁ ih₂ => exact ih₂ (ih₁ ht)

/-! ## 2. Assignments -/

theorem wellFormed_nest (names : List String) (ht : t.WellFormed) : (nest names t).WellFormed := by
  induction names with
  | nil => exact ht
  | cons name names ih => exact .object (by simp [Fields.keys]) (List.forall_mem_singleton.2 ih)

/-- A new field repeats no name. -/
theorem GainsField.wellFormed {name : String} (h : GainsField p name x t t') (ht : t.WellFormed)
    (hx : x.WellFormed) : t'.WellFormed := by
  obtain ⟨fields, hname, hr⟩ := h
  refine hr.wellFormed ht ?_
  intro hobject
  obtain ⟨hnodup, hfields⟩ := wellFormed_object_iff.1 hobject
  refine wellFormed_object_iff.2 ⟨?_, ?_⟩
  · have hkeys : Fields.keys (fields ++ [(name, x)]) =
        Fields.keys (Fields.insert name x fields) := by
      rw [Fields.insert_of_not_mem hname]
    rw [hkeys]
    exact Fields.nodup_keys_insert hnodup
  · intro field hfield
    rcases List.mem_append.1 hfield with hfield | hfield
    · exact hfields field hfield
    · rw [List.mem_singleton.1 hfield]
      exact hx

/-- A walk leaves a well-formed tree, also if it fails. -/
theorem WellFormed.graft (ht : t.WellFormed) (hv : v.WellFormed) (p : Path) :
    (graft v t p).tree.WellFormed := by
  have hall := grafted v t p
  generalize Tree.graft v t p = done at hall
  cases hall with
  | replaced hr => exact hr.wellFormed ht fun _ => hv
  | added hg => exact hg.wellFormed ht (wellFormed_nest _ hv)
  | stopped _ _ => exact ht
  | abandoned hg _ =>
    exact hg.wellFormed ht (wellFormed_nest _ (.object (by simp [Fields.keys]) nofun))

/-- So does an assignment. -/
theorem WellFormed.setAt (ht : t.WellFormed) (hv : v.WellFormed) (a : Address) :
    (t.setAt a v).1.WellFormed := by
  by_cases hpath : a.path = []
  · rw [setAt_of_nil hpath]
    exact ht
  · rw [setAt_of_ne_nil hpath]
    exact ht.graft hv a.path

/-- **Assignments keep names distinct**, any number of them, and whether they succeed or fail. -/
theorem WellFormed.setAll (ht : t.WellFormed) {writes : List (Address × Tree ν)}
    (hwrites : ∀ write ∈ writes, write.2.WellFormed) : (t.setAll writes).WellFormed := by
  induction writes generalizing t with
  | nil => exact ht
  | cons write writes ih =>
    obtain ⟨hwrite, hrest⟩ := List.forall_mem_cons.1 hwrites
    exact ih (ht.setAt hwrite write.1) hrest

/-- A field that is written to an object keeps it well formed. -/
theorem WellFormed.insert {fields : Fields (Tree ν)} (h : (Tree.object fields).WellFormed)
    (hx : x.WellFormed) (name : String) :
    (Tree.object (Fields.insert name x fields)).WellFormed := by
  have hgraft := h.graft hx [.key name]
  rwa [graft_cons_of_slot rfl] at hgraft

end Tree

/-! ## 3. The reader -/

namespace Json

/-- What has been read of an array or object is well formed. -/
def Frame.WellFormed : Frame → Prop
  | array done => ∀ t ∈ done, t.WellFormed
  | object done _ => (Tree.object done).WellFormed

/-- What has been read is well formed. -/
def State.WellFormed : State → Prop
  | value outer => ∀ f ∈ outer, f.WellFormed
  | element done outer => (∀ t ∈ done, t.WellFormed) ∧ ∀ f ∈ outer, f.WellFormed
  | key done outer => (Tree.object done).WellFormed ∧ ∀ f ∈ outer, f.WellFormed
  | colon done _ outer => (Tree.object done).WellFormed ∧ ∀ f ∈ outer, f.WellFormed
  | after t outer => t.WellFormed ∧ ∀ f ∈ outer, f.WellFormed

/-- A value that is one token has no fields. -/
theorem wellFormed_of_readScalar {c : Char} {cs rest : List Char} {t : Json}
    (h : readScalar c cs = .ok (t, rest)) : t.WellFormed := by
  have constant {t u : Json} {word cs rest : List Char} (ht : t.WellFormed)
      (h : readConstant t word cs = .ok (u, rest)) : u.WellFormed := by
    unfold readConstant at h
    split at h
    · cases h
    · cases h
      exact ht
  unfold readScalar at h
  split at h
  · split at h
    · cases h
    · cases h
      exact .string _
  split at h
  · exact constant .null h
  split at h
  · exact constant (.bool _) h
  split at h
  · exact constant (.bool _) h
  split at h
  · split at h
    · cases h
    · cases h
      exact .number _
  · cases h

namespace State

theorem wellFormed_begin {outer : List Frame} {c : Char} {cs rest : List Char} {st : State}
    (hst : ∀ f ∈ outer, f.WellFormed) (h : begin outer c cs = .ok (st, rest)) : st.WellFormed := by
  unfold begin at h
  split at h
  · split at h
    · cases h
      exact ⟨nofun, hst⟩
    · cases h
  split at h
  · split at h
    · cases h
      exact ⟨.object (by simp [Fields.keys]) nofun, hst⟩
    · cases h
  · split at h
    · cases h
    · next hscalar =>
      cases h
      exact ⟨wellFormed_of_readScalar hscalar, hst⟩

/-- **One token keeps what has been read well formed.** -/
theorem WellFormed.step {c : Char} {cs rest : List Char} {st st' : State} (hst : st.WellFormed)
    (h : st.step c cs = .ok (st', rest)) : st'.WellFormed := by
  unfold State.step at h
  split at h
  · exact wellFormed_begin hst h
  · next done outer =>
    obtain ⟨hdone, houter⟩ := hst
    split at h
    · split at h
      · cases h
        exact ⟨.array nofun, houter⟩
      · cases h
    · have hframes : ∀ f ∈ Frame.array done :: outer, f.WellFormed :=
        List.forall_mem_cons.2 ⟨hdone, houter⟩
      exact wellFormed_begin hframes h
  · next done outer =>
    obtain ⟨hdone, houter⟩ := hst
    split at h
    · split at h
      · cases h
      · cases h
        exact ⟨hdone, houter⟩
    · split at h
      · split at h
        · cases h
          exact ⟨.object (by simp [Fields.keys]) nofun, houter⟩
        · cases h
      · cases h
  · next done k outer =>
    obtain ⟨hdone, houter⟩ := hst
    split at h
    · cases h
      exact List.forall_mem_cons.2 ⟨hdone, houter⟩
    · cases h
  · cases h
  · next t done outer =>
    obtain ⟨ht, houter⟩ := hst
    obtain ⟨hdone, houter⟩ := List.forall_mem_cons.1 houter
    have hitems : ∀ u ∈ t :: done, u.WellFormed := List.forall_mem_cons.2 ⟨ht, hdone⟩
    split at h
    · cases h
      exact ⟨hitems, houter⟩
    · split at h
      · cases h
        refine ⟨.array ?_, houter⟩
        intro u hu
        exact hitems u (List.mem_reverse.1 hu)
      · cases h
  · next t done k outer =>
    obtain ⟨ht, houter⟩ := hst
    obtain ⟨hdone, houter⟩ := List.forall_mem_cons.1 houter
    have hfields := Tree.WellFormed.insert hdone ht k
    split at h
    · cases h
      exact ⟨hfields, houter⟩
    · split at h
      · cases h
        exact ⟨hfields, houter⟩
      · cases h

theorem WellFormed.finish {st : State} {t : Json} (hst : st.WellFormed) (h : st.finish = .ok t) :
    t.WellFormed := by
  unfold State.finish at h
  split at h
  all_goals cases h
  exact hst.1

end State

/-- What the machine reads is well formed. -/
theorem wellFormed_of_run {st : State} {cs : List Char} {t : Json} (hst : st.WellFormed)
    (h : run st cs = .ok t) : t.WellFormed := by
  fun_induction run st cs with
  | case1 => exact hst.finish h
  | case2 => cases h
  | case3 st cs c rest _ st' rest' hstep ih => exact ih (hst.step hstep) h

end Json

/-- **Names are distinct in every document that is read.** -/
theorem Document.wellFormed_of_ofText? {text : String} {d : Document} (h : ofText? text = .ok d) :
    d.WellFormed := by
  unfold ofText? Json.read at h
  split at h
  · next t hread =>
    split at hread
    · next u hrun =>
      cases hread
      cases h
      have hstart : (Json.State.value []).WellFormed := nofun
      have hwell : t.WellFormed := Json.wellFormed_of_run hstart hrun
      exact hwell.bind fun x => .number _
    · cases hread
  · cases h

end DocPath
