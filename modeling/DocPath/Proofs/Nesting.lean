import DocPath.Proofs.NumberTexts

/-!
# What is written is read unless it nests too deep

The reader refuses an array or object that would be open inside 127 others, and of what is written
for a document it refuses nothing else.  So the text of a document is read if and only if the
document nests at most 127 levels (`exists_ofText?_text_iff`), and then the document comes back with
every number replaced by what its numeral is read as (`Document.reread`).

One half is `Json.readBack`, which follows the machine through a tree that fits its stack.  The
other half is `Json.refused`, an induction of the same shape over a tree that does not: what stands
before the first node that is too deep is read back, and at that node the machine stops.
-/

namespace DocPath

namespace Json

/-! ## 1. Where the machine stops -/

/-- The machine stops because an array or object is open inside too many others. -/
def StopsTooDeep (st : State) (cs : List Char) : Prop :=
  ∃ stop : Stop, run st cs = .error stop ∧ stop.problem = .tooDeep

/-- The machine stops at a token that it cannot read. -/
theorem run_stop {st : State} {c : Char} {cs : List Char} {stop : Stop} (hc : isBlank c = false)
    (h : st.step c cs = .error stop) : run st (c :: cs) = .error stop := by
  have hskip : skipBlanks (c :: cs) = c :: cs := by simp [skipBlanks, hc]
  rw [run]
  split
  · next hnil => cases hskip.symm.trans hnil
  · next d ds hcons =>
    cases hskip.symm.trans hcons
    split
    · next hstep =>
      cases h.symm.trans hstep
      rfl
    · next hstep => cases h.symm.trans hstep

theorem write_array (layout : Layout) (level : Nat) (items : List Json) :
    ∃ cs, write layout level (.array items) = '[' :: cs := by
  cases items with
  | nil => exact ⟨_, rfl⟩
  | cons t ts => exact ⟨_, rfl⟩

theorem write_object (layout : Layout) (level : Nat) (fields : List (String × Json)) :
    ∃ cs, write layout level (.object fields) = '{' :: cs := by
  cases fields with
  | nil => exact ⟨_, rfl⟩
  | cons field fs => exact ⟨_, rfl⟩

/-- Nothing is opened where the stack is full. -/
theorem stopsTooDeep_open {st : State} {outer : List Frame} (hst : st.Awaits outer)
    (hfull : ¬ outer.length < openLimit) {c : Char} (hc : c = '[' ∨ c = '{') (cs : List Char) :
    StopsTooDeep st (c :: cs) := by
  rcases hc with rfl | rfl
  · refine ⟨.within .tooDeep ('[' :: cs), run_stop rfl ?_, rfl⟩
    rw [hst _ _ (by decide), State.begin, if_pos rfl, if_neg hfull]
  · refine ⟨.within .tooDeep ('{' :: cs), run_stop rfl ?_, rfl⟩
    rw [hst _ _ (by decide), State.begin, if_neg (by decide), if_pos rfl, if_neg hfull]

/-- What is claimed of a node `t`: wherever the stack has no room for its depth, the machine stops
inside it. -/
def Refused (layout : Layout) (t : Json) : Prop :=
  ∀ (st : State) (outer : List Frame) (level : Nat) (rest : List Char), st.Awaits outer →
    outer.length ≤ openLimit → openLimit < t.depth + outer.length →
    StopsTooDeep st (write layout level t ++ rest)

/-- A leaf needs no room. -/
theorem refused_leaf (layout : Layout) {t : Json} (h : t.depth = 0) : Refused layout t := by
  intro st outer level rest _ hle hlt
  omega

/-! ## 2. Arrays -/

variable {layout : Layout} {f : Json → Json}

/-- The elements before the first one that is too deep are read back; there the machine stops. -/
theorem stopsTooDeep_items (level : Nat) {outer : List Frame} (hroom : outer.length < openLimit)
    {t : Json} {ts : List Json} (hread : ∀ u ∈ t :: ts, ReadBack layout u (f u))
    (hrefused : ∀ u ∈ t :: ts, Refused layout u)
    (hdeep : ∃ u ∈ t :: ts, openLimit ≤ u.depth + outer.length) (done : List Json)
    (rest : List Char) :
    StopsTooDeep (.element done outer)
      (write layout (level + 1) t ++ (writeItems layout (level + 1) ts ++ rest)) := by
  induction ts generalizing t done with
  | nil =>
    obtain ⟨u, hu, hlt⟩ := hdeep
    rw [List.mem_singleton.1 hu] at hlt
    exact hrefused t List.mem_cons_self _ (.array done :: outer) _ _
      (State.awaits_element done outer) hroom (Nat.lt_succ_of_le hlt)
  | cons t' ts ih =>
    obtain ⟨hread, hreads⟩ := List.forall_mem_cons.1 hread
    obtain ⟨hrefused, hrefuseds⟩ := List.forall_mem_cons.1 hrefused
    rcases Nat.lt_or_ge (t.depth + outer.length) openLimit with hfits | hlong
    · have hdeep : ∃ u ∈ t' :: ts, openLimit ≤ u.depth + outer.length := by
        obtain ⟨u, hu, hlt⟩ := hdeep
        rcases List.mem_cons.1 hu with rfl | hu
        · omega
        · exact ⟨u, hu, hlt⟩
      have hcomma (cs : List Char) : run (.after (f t) (.array done :: outer)) (',' :: cs) =
          run (.element (f t :: done) outer) cs := run_step rfl rfl
      have hrest := ih hreads hrefuseds hdeep (f t :: done)
      rw [writeItems, StopsTooDeep]
      simp only [List.cons_append, List.append_assoc]
      rw [hread _ _ (level + 1) _ (State.awaits_element done outer) hfits
        (Numeral.ends_cons.2 (by decide)), hcomma, run_lineStart]
      exact hrest
    · exact hrefused _ (.array done :: outer) _ _ (State.awaits_element done outer) hroom
        (Nat.lt_succ_of_le hlong)

theorem refused_array {items : List Json} (hread : ∀ t ∈ items, ReadBack layout t (f t))
    (hrefused : ∀ t ∈ items, Refused layout t) : Refused layout (.array items) := by
  intro st outer level rest hst hle hdeep
  rcases Nat.lt_or_ge outer.length openLimit with hroom | hfull
  · rw [Tree.depth] at hdeep
    obtain ⟨u, hu, hlt⟩ := Tree.exists_of_lt_depthItems
      (show openLimit - outer.length - 1 < Tree.depthItems items by omega)
    cases items with
    | nil => cases hu
    | cons t ts =>
      have hitems := stopsTooDeep_items level hroom hread hrefused ⟨u, hu, by omega⟩ []
        (layout.lineStart level ++ ']' :: rest)
      rw [write, StopsTooDeep]
      simp only [List.cons_append, List.append_assoc, List.nil_append]
      rw [run_openArray hst hroom, run_lineStart]
      exact hitems
  · obtain ⟨cs, hcs⟩ := write_array layout level items
    rw [hcs, List.cons_append]
    exact stopsTooDeep_open hst (Nat.not_lt.2 hfull) (.inl rfl) _

/-! ## 3. Objects -/

/-- The fields before the first one that is too deep are read back; there the machine stops. -/
theorem stopsTooDeep_fields (level : Nat) {outer : List Frame} (hroom : outer.length < openLimit)
    {field : String × Json} {fs : List (String × Json)}
    (hread : ∀ g ∈ field :: fs, ReadBack layout g.2 (f g.2))
    (hrefused : ∀ g ∈ field :: fs, Refused layout g.2)
    (hdeep : ∃ g ∈ field :: fs, openLimit ≤ g.2.depth + outer.length) (done : Fields Json)
    (rest : List Char) :
    StopsTooDeep (.key done outer)
      (Quoted.write field.1.toList ++ (layout.colon ++
        (write layout (level + 1) field.2 ++ (writeFields layout (level + 1) fs ++ rest)))) := by
  induction fs generalizing field done with
  | nil =>
    obtain ⟨g, hg, hlt⟩ := hdeep
    rw [List.mem_singleton.1 hg] at hlt
    rw [StopsTooDeep, run_name]
    exact hrefused field List.mem_cons_self _ (.object done field.1 :: outer) _ _
      (State.awaits_value _) hroom (Nat.lt_succ_of_le hlt)
  | cons field' fs ih =>
    obtain ⟨hread, hreads⟩ := List.forall_mem_cons.1 hread
    obtain ⟨hrefused, hrefuseds⟩ := List.forall_mem_cons.1 hrefused
    rw [StopsTooDeep, run_name]
    rcases Nat.lt_or_ge (field.2.depth + outer.length) openLimit with hfits | hlong
    · have hdeep : ∃ g ∈ field' :: fs, openLimit ≤ g.2.depth + outer.length := by
        obtain ⟨g, hg, hlt⟩ := hdeep
        rcases List.mem_cons.1 hg with rfl | hg
        · omega
        · exact ⟨g, hg, hlt⟩
      have hcomma (cs : List Char) :
          run (.after (f field.2) (.object done field.1 :: outer)) (',' :: cs) =
            run (.key (Fields.insert field.1 (f field.2) done) outer) cs := run_step rfl rfl
      have hrest := ih hreads hrefuseds hdeep (Fields.insert field.1 (f field.2) done)
      rw [writeFields]
      simp only [List.cons_append, List.append_assoc]
      rw [hread _ (.object done field.1 :: outer) (level + 1) _ (State.awaits_value _) hfits
        (Numeral.ends_cons.2 (by decide)), hcomma, run_lineStart]
      exact hrest
    · exact hrefused _ (.object done field.1 :: outer) _ _ (State.awaits_value _) hroom
        (Nat.lt_succ_of_le hlong)

theorem refused_object {fields : List (String × Json)}
    (hread : ∀ field ∈ fields, ReadBack layout field.2 (f field.2))
    (hrefused : ∀ field ∈ fields, Refused layout field.2) : Refused layout (.object fields) := by
  intro st outer level rest hst hle hdeep
  rcases Nat.lt_or_ge outer.length openLimit with hroom | hfull
  · rw [Tree.depth] at hdeep
    obtain ⟨g, hg, hlt⟩ := Tree.exists_of_lt_depthFields
      (show openLimit - outer.length - 1 < Tree.depthFields fields by omega)
    cases fields with
    | nil => cases hg
    | cons field fs =>
      have hfields := stopsTooDeep_fields level hroom hread hrefused ⟨g, hg, by omega⟩ []
        (layout.lineStart level ++ '}' :: rest)
      rw [write, StopsTooDeep]
      simp only [List.cons_append, List.append_assoc, List.nil_append]
      rw [run_openObject hst hroom, run_lineStart]
      exact hfields
  · obtain ⟨cs, hcs⟩ := write_object layout level fields
    rw [hcs, List.cons_append]
    exact stopsTooDeep_open hst (Nat.not_lt.2 hfull) (.inr rfl) _

/-! ## 4. Whole trees -/

/-- **A written tree is refused where the stack has no room for its depth.** -/
theorem refused {reread : Number → Number} (layout : Layout) {t : Json} (hw : t.WellFormed)
    (hn : ∀ x ∈ t.numbers, x.ReadBack (reread x)) : Refused layout t := by
  induction hw with
  | null => exact refused_leaf layout rfl
  | bool b => exact refused_leaf layout rfl
  | number x => exact refused_leaf layout rfl
  | string s => exact refused_leaf layout rfl
  | @array items hitems ih =>
    have hnumbers : ∀ t ∈ items, ∀ x ∈ t.numbers, x.ReadBack (reread x) := by
      intro t ht x hx
      exact hn x (Tree.mem_numbers_array.2 ⟨t, ht, hx⟩)
    refine refused_array (f := fun t => t.bind fun x => .number (reread x)) ?_ ?_
    · intro t ht
      exact readBack layout (hitems t ht) (hnumbers t ht)
    · intro t ht
      exact ih t ht (hnumbers t ht)
  | @object fields _ hfields ih =>
    have hnumbers : ∀ field ∈ fields, ∀ x ∈ field.2.numbers, x.ReadBack (reread x) := by
      intro field hfield x hx
      exact hn x (Tree.mem_numbers_object.2 ⟨field, hfield, hx⟩)
    refine refused_object (f := fun t => t.bind fun x => .number (reread x)) ?_ ?_
    · intro field hfield
      exact readBack layout (hfields field hfield) (hnumbers field hfield)
    · intro field hfield
      exact ih field hfield (hnumbers field hfield)

/-- **What is written is refused** if it is deeper, whatever follows it. -/
theorem read_write_of_lt {reread : Number → Number} (layout : Layout) {t : Json}
    (hw : t.WellFormed) (hn : ∀ x ∈ t.numbers, x.ReadBack (reread x)) (hdepth : openLimit < t.depth)
    (rest : List Char) :
    ∃ fault : Fault, read (write layout 0 t ++ rest) = .error fault ∧ fault.problem = .tooDeep := by
  obtain ⟨stop, hrun, hproblem⟩ := refused layout hw hn (.value []) [] 0 rest
    (State.awaits_value []) (Nat.zero_le _) hdepth
  rw [read, hrun]
  exact ⟨_, rfl, hproblem⟩

/-! ## 5. Numbers -/

/-- What the numeral of a number is read as. -/
def Number.reread (x : Number) : Number :=
  match Numeral.readValue x.chars with
  | .ok (y, _) => y
  | .error _ => x

/-- A number is read back as one number only. -/
theorem Number.ReadBack.reread_eq {x y : Number} (h : x.ReadBack y) : x.reread = y := by
  have hread := h [] Numeral.ends_nil
  rw [List.append_nil] at hread
  rw [reread, hread]

theorem Number.readBack_reread (x : Finite) :
    (Number.ofFinite x).ReadBack (Number.ofFinite x).reread := by
  obtain ⟨y, hy⟩ := Number.exists_readBack_ofFinite x
  rwa [hy.reread_eq]

end Json

/-! ## 6. Documents -/

namespace Document

/-- The document with every number replaced by what its numeral is read as, or by null if it has
none. -/
def reread (d : Document) : Document :=
  Json.toDocument ((Json.ofDocument d).bind fun x => .number x.reread)

variable {d : Document}

theorem readBack_of_mem_ofDocument {x : Json.Number} (hx : x ∈ (Json.ofDocument d).numbers) :
    x.ReadBack x.reread := by
  obtain ⟨y, -, rfl⟩ := Json.exists_of_mem_numbers_ofDocument hx
  exact Json.Number.readBack_reread y

/-- **A document that nests at most 127 levels is read back from its text**, with blanks behind it,
and any number of it as some number. -/
theorem ofText?_text_append (hw : d.WellFormed) (hdepth : d.depth ≤ 127) (layout : Json.Layout)
    (blanks : String) (hblanks : ∀ b ∈ blanks.toList, Json.isBlank b = true) :
    ofText? (d.text layout ++ blanks) = .ok d.reread := by
  have hread := Json.read_write_blanks layout (Json.wellFormed_ofDocument hw)
    (Json.depth_ofDocument d ▸ hdepth) (fun x hx => readBack_of_mem_ofDocument hx) hblanks
  rw [ofText?, text, String.toList_append, String.toList_ofList, hread, reread]

/-- **A document that nests deeper is refused**, and for that reason. -/
theorem ofText?_text_of_lt (hw : d.WellFormed) (hdepth : 127 < d.depth) (layout : Json.Layout)
    (rest : String) :
    ∃ fault, ofText? (d.text layout ++ rest) = .error fault ∧ fault.problem = .tooDeep := by
  obtain ⟨fault, hread, hproblem⟩ := Json.read_write_of_lt layout (Json.wellFormed_ofDocument hw)
    (fun x hx => readBack_of_mem_ofDocument hx) (Json.depth_ofDocument d ▸ hdepth) rest.toList
  refine ⟨fault, ?_, hproblem⟩
  rw [ofText?, text, String.toList_append, String.toList_ofList, hread]

/-- So the text of a document is read if and only if the document nests at most 127 levels. -/
theorem exists_ofText?_text_iff (hw : d.WellFormed) (layout : Json.Layout) (blanks : String)
    (hblanks : ∀ b ∈ blanks.toList, Json.isBlank b = true) :
    (∃ e, ofText? (d.text layout ++ blanks) = .ok e) ↔ d.depth ≤ 127 := by
  constructor
  · rintro ⟨e, he⟩
    refine Nat.not_lt.1 fun hlt => ?_
    obtain ⟨fault, hfault, -⟩ := ofText?_text_of_lt hw hlt layout blanks
    cases he.symm.trans hfault
  · intro hdepth
    exact ⟨_, ofText?_text_append hw hdepth layout blanks hblanks⟩

/-- A document with no numbers but integers that 64 bits hold is read back as it was. -/
theorem reread_of_isInteger
    (hn : ∀ x ∈ d.numbers, ∃ y n, x = .finite y ∧ y.IsInteger n ∧ -2 ^ 63 ≤ n ∧ n < 2 ^ 63) :
    d.reread = d := by
  have hsame : (Json.ofDocument d).bind (fun x => .number x.reread) = Json.ofDocument d := by
    have hbind : (Json.ofDocument d).bind (fun x => .number x.reread) =
        (Json.ofDocument d).bind .number := by
      refine Tree.bind_congr ?_
      intro x hx
      obtain ⟨y, hy, rfl⟩ := Json.exists_of_mem_numbers_ofDocument hx
      obtain ⟨z, n, hz, hinteger, hlow, hhigh⟩ := hn _ hy
      cases hz
      rw [(Json.Number.readBack_ofFinite hinteger hlow hhigh).reread_eq]
    rw [hbind, Tree.bind_number]
  have hfinite : d.withoutNonFinite = d.bind .number := by
    refine Tree.bind_congr ?_
    intro x hx
    obtain ⟨y, n, rfl, -⟩ := hn x hx
    rfl
  rw [reread, hsame, Json.toDocument_ofDocument, hfinite, Tree.bind_number]

end Document

end DocPath
