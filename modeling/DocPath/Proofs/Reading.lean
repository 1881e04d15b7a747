import DocPath.Json.Reader
import DocPath.Json.Writer
import DocPath.Proofs.Fields
import DocPath.Proofs.Numerals
import DocPath.Proofs.Quoted
import DocPath.Proofs.Trees

/-!
# The reader on written trees

The reader is a machine with a stack of open arrays and objects, the writer a recursion over the
tree.  They meet in one statement about a node, `ReadBack`: wherever the machine waits for a value,
with any stack that leaves room for the depth of the node and any text behind it, it consumes what
the writer has written for the node and stands behind a value.  The statement is proved by
induction over the tree (`readBack`); for an array or an object a second induction, over the
elements or fields that are left, follows the machine around its loop (`run_items`, `run_fields`).

Both layouts are covered at once: they differ in blanks, and the machine passes over those
(`run_blanks`).

What a numeral is read as is a parameter, `reread`, because reading a numeral may round.  The trees
that come back differ from those written by `reread` on every number and in nothing else.
-/

namespace DocPath

/-- Among names that are distinct the next one is new. -/
theorem Fields.insert_next {α : Type} {key : String} {fs : Fields α} {names : List String}
    (h : (keys fs ++ key :: names).Nodup) (x : α) : insert key x fs = fs ++ [(key, x)] :=
  insert_of_not_mem (fun hk => (List.nodup_append.1 h).2.2 key hk key List.mem_cons_self rfl) x

namespace Json

/-! ## 1. The machine, a step at a time -/

/-- Blanks before a token do not matter. -/
theorem run_blanks {bs : List Char} (hbs : ∀ b ∈ bs, isBlank b = true) (st : State)
    (cs : List Char) : run st (bs ++ cs) = run st cs := by
  have hskip : skipBlanks (bs ++ cs) = skipBlanks cs := List.dropWhile_append_of_pos hbs
  rw [run, run, hskip]

/-- A character that is not blank begins the next token. -/
theorem run_step {st st' : State} {c : Char} {cs rest : List Char} (hc : isBlank c = false)
    (h : st.step c cs = .ok (st', rest)) : run st (c :: cs) = run st' rest := by
  have hskip : skipBlanks (c :: cs) = c :: cs := by simp [skipBlanks, hc]
  rw [run]
  split
  · next hnil => cases hskip.symm.trans hnil
  · next d ds hcons =>
    cases hskip.symm.trans hcons
    split
    · next hstop => cases h.symm.trans hstop
    · next hok =>
      cases h.symm.trans hok
      rfl

theorem run_nil (st : State) : run st [] = st.finish := by
  rw [run]
  rfl

/-- What begins a line is blank. -/
theorem isBlank_of_mem_lineStart {layout : Layout} {level : Nat} {c : Char}
    (h : c ∈ layout.lineStart level) : isBlank c = true := by
  cases layout with
  | compact => cases h
  | indented =>
    rcases List.mem_cons.1 h with rfl | h
    · rfl
    · rw [List.eq_of_mem_replicate h]
      rfl

theorem run_lineStart (layout : Layout) (level : Nat) (st : State) (cs : List Char) :
    run st (layout.lineStart level ++ cs) = run st cs :=
  run_blanks (fun _ h => isBlank_of_mem_lineStart h) st cs

/-! ## 2. Waiting for a value -/

/-- In the state a value inside `outer` can begin.  It is no matter whether nothing else can come,
or the end of an array can. -/
def State.Awaits (st : State) (outer : List Frame) : Prop :=
  ∀ c cs, c ≠ ']' → st.step c cs = State.begin outer c cs

theorem State.awaits_value (outer : List Frame) : (State.value outer).Awaits outer :=
  fun _ _ _ => rfl

theorem State.awaits_element (done : List Json) (outer : List Frame) :
    (State.element done outer).Awaits (.array done :: outer) :=
  fun _ _ hc => if_neg hc

/-- A value that is one token is read in one step. -/
theorem run_scalar {st : State} {outer : List Frame} (hst : st.Awaits outer) {t : Json} {c : Char}
    {cs rest : List Char} (hblank : isBlank c = false)
    (hc : c ≠ '[' ∧ c ≠ ']' ∧ c ≠ '{') (h : readScalar c cs = .ok (t, rest)) :
    run st (c :: cs) = run (.after t outer) rest := by
  refine run_step hblank ?_
  rw [hst c cs hc.2.1, State.begin, if_neg hc.1, if_neg hc.2.2, h]

/-- An array can be opened where the stack leaves room for it. -/
theorem run_openArray {st : State} {outer : List Frame} (hst : st.Awaits outer)
    (hroom : outer.length < openLimit) (cs : List Char) :
    run st ('[' :: cs) = run (.element [] outer) cs := by
  refine run_step rfl ?_
  rw [hst '[' cs (by decide), State.begin, if_pos rfl, if_pos hroom]

/-- An object can be opened where the stack leaves room for it. -/
theorem run_openObject {st : State} {outer : List Frame} (hst : st.Awaits outer)
    (hroom : outer.length < openLimit) (cs : List Char) :
    run st ('{' :: cs) = run (.key [] outer) cs := by
  refine run_step rfl ?_
  rw [hst '{' cs (by decide), State.begin, if_neg (by decide), if_pos rfl, if_pos hroom]

/-- A name and its colon are read, and the value of the field is awaited. -/
theorem run_name (layout : Layout) (done : Fields Json) (k : String) (outer : List Frame)
    (cs : List Char) :
    run (.key done outer) (Quoted.write k.toList ++ (layout.colon ++ cs)) =
      run (.value (.object done k :: outer)) cs := by
  have hname : State.step '"' (k.toList.flatMap Quoted.escaped ++ '"' :: (layout.colon ++ cs))
      (.key done outer) = .ok (.colon done k outer, layout.colon ++ cs) := by
    rw [State.step, if_pos rfl, Quoted.read_flatMap_escaped]
    simp only [String.ofList_toList]
  have hcolon (rest : List Char) : run (.colon done k outer) (':' :: rest) =
      run (.value (.object done k :: outer)) rest := run_step rfl rfl
  have hwrite : Quoted.write k.toList ++ (layout.colon ++ cs) =
      '"' :: (k.toList.flatMap Quoted.escaped ++ '"' :: (layout.colon ++ cs)) := by
    simp [Quoted.write]
  rw [hwrite, run_step rfl hname]
  cases layout with
  | compact => exact hcolon cs
  | indented =>
    have hspace : run (.value (.object done k :: outer)) ([' '] ++ cs) =
        run (.value (.object done k :: outer)) cs :=
      run_blanks (List.forall_mem_singleton.2 rfl) _ cs
    exact (hcolon (' ' :: cs)).trans hspace

/-! ## 3. What is claimed of a node -/

/-- A number that is read back as another (or as itself), wherever its numeral ends. -/
def Number.ReadBack (x y : Number) : Prop :=
  ∀ rest, Numeral.Ends rest → Numeral.readValue (x.chars ++ rest) = .ok (y, rest)

/-- The machine reads what is written for the node `t` as the node `u`. -/
def ReadBack (layout : Layout) (t u : Json) : Prop :=
  ∀ (st : State) (outer : List Frame) (level : Nat) (rest : List Char), st.Awaits outer →
    t.depth + outer.length ≤ openLimit → Numeral.Ends rest →
    run st (write layout level t ++ rest) = run (.after u outer) rest

/-! ## 4. Values that are one token -/

/-- A numeral begins with a minus or a digit. -/
theorem Numeral.head_of_readValue {cs rest : List Char} {x : Number}
    (h : readValue cs = .ok (x, rest)) : ∃ c cs', cs = c :: cs' ∧ (c = '-' ∨ c.isDigit = true) := by
  cases cs with
  | nil => cases h
  | cons c cs =>
    refine ⟨c, cs, rfl, ?_⟩
    by_cases hminus : c = '-'
    · exact .inl hminus
    · cases hdigit : c.isDigit with
      | true => exact .inr rfl
      | false =>
        have hnone : (c :: cs).takeWhile Char.isDigit = [] := by simp [hdigit]
        rw [readValue, read, if_neg hminus, readUnsigned, readWhole, readDigits, if_pos hnone] at h
        cases h

theorem run_number {layout : Layout} {x y : Number} (h : x.ReadBack y) :
    ReadBack layout (.number x) (.number y) := by
  intro st outer level rest hst _ hrest
  have hread := h rest hrest
  obtain ⟨c, cs, hcs, hc⟩ := Numeral.head_of_readValue hread
  have hne (d : Char) (hminus : d ≠ '-') (hdigit : d.isDigit = false) : c ≠ d := by
    rintro rfl
    rcases hc with rfl | hc
    · exact hminus rfl
    · rw [hdigit] at hc
      cases hc
  have hblank : isBlank c = false := by
    simp [isBlank, hne ' ' (by decide) rfl, hne '\n' (by decide) rfl, hne '\r' (by decide) rfl,
      hne '\t' (by decide) rfl]
  have hscalar : readScalar c cs = .ok (.number y, rest) := by
    rw [readScalar, if_neg (hne '"' (by decide) rfl), if_neg (hne 'n' (by decide) rfl),
      if_neg (hne 't' (by decide) rfl), if_neg (hne 'f' (by decide) rfl), if_pos hc, ← hcs, hread]
  rw [write, hcs]
  exact run_scalar hst hblank
    ⟨hne '[' (by decide) rfl, hne ']' (by decide) rfl, hne '{' (by decide) rfl⟩ hscalar

theorem run_string (layout : Layout) (s : String) : ReadBack layout (.string s) (.string s) := by
  intro st outer level rest hst _ _
  have hwrite : write layout level (.string s) ++ rest =
      '"' :: (s.toList.flatMap Quoted.escaped ++ '"' :: rest) := by
    simp [write, Quoted.write]
  have hscalar : readScalar '"' (s.toList.flatMap Quoted.escaped ++ '"' :: rest) =
      .ok (.string s, rest) := by
    rw [readScalar, if_pos rfl, Quoted.read_flatMap_escaped]
    simp only [String.ofList_toList]
  rw [hwrite]
  exact run_scalar hst rfl (by decide) hscalar

theorem run_null (layout : Layout) : ReadBack layout .null .null := by
  intro st outer level rest hst _ _
  exact run_scalar hst rfl (by decide) rfl

theorem run_bool (layout : Layout) (b : Bool) : ReadBack layout (.bool b) (.bool b) := by
  intro st outer level rest hst _ _
  cases b with
  | true => exact run_scalar hst rfl (by decide) rfl
  | false => exact run_scalar hst rfl (by decide) rfl

/-! ## 5. Arrays -/

/-- No numeral is continued by what follows an element or a field. -/
theorem ends_lineStart (layout : Layout) (level : Nat) {c : Char} (hc : c = ']' ∨ c = '}')
    (rest : List Char) : Numeral.Ends (layout.lineStart level ++ c :: rest) := by
  cases layout with
  | compact =>
    refine Numeral.ends_cons.2 ?_
    rcases hc with rfl | rfl
    · decide
    · decide
  | indented => exact Numeral.ends_cons.2 (by decide)

theorem ends_writeItems (layout : Layout) (level : Nat) (ts : List Json) (rest : List Char) :
    Numeral.Ends (writeItems layout (level + 1) ts ++ (layout.lineStart level ++ ']' :: rest)) := by
  cases ts with
  | nil => exact ends_lineStart layout level (.inl rfl) rest
  | cons t ts => exact Numeral.ends_cons.2 (by decide)

/-- Behind an element the machine reads the elements that are left, and the end of the array. -/
theorem run_items {layout : Layout} {f : Json → Json} (level : Nat) {outer : List Frame}
    {ts : List Json} (h : ∀ t ∈ ts, ReadBack layout t (f t))
    (hdepth : ∀ t ∈ ts, t.depth + outer.length < openLimit) (done : List Json) (u : Json)
    (rest : List Char) :
    run (.after u (.array done :: outer))
        (writeItems layout (level + 1) ts ++ (layout.lineStart level ++ ']' :: rest)) =
      run (.after (.array (done.reverse ++ u :: ts.map f)) outer) rest := by
  induction ts generalizing done u with
  | nil =>
    have hend : State.step ']' rest (.after u (.array done :: outer)) =
        .ok (.after (.array (u :: done).reverse) outer, rest) := rfl
    rw [writeItems, List.nil_append, run_lineStart, run_step rfl hend, List.reverse_cons]
    rfl
  | cons t ts ih =>
    obtain ⟨ht, hts⟩ := List.forall_mem_cons.1 h
    obtain ⟨hroom, hrooms⟩ := List.forall_mem_cons.1 hdepth
    have hcomma (cs : List Char) : run (.after u (.array done :: outer)) (',' :: cs) =
        run (.element (u :: done) outer) cs := run_step rfl rfl
    rw [writeItems, List.cons_append, hcomma, List.append_assoc, List.append_assoc, run_lineStart,
      ht _ _ (level + 1) _ (State.awaits_element (u :: done) outer) hroom
        (ends_writeItems layout level ts rest),
      ih hts hrooms]
    simp

theorem run_array {layout : Layout} {f : Json → Json} {items : List Json}
    (h : ∀ t ∈ items, ReadBack layout t (f t)) :
    ReadBack layout (.array items) (.array (items.map f)) := by
  intro st outer level rest hst hdepth _
  have hroom : outer.length < openLimit := by
    rw [Tree.depth] at hdepth
    omega
  cases items with
  | nil =>
    have hend : State.step ']' rest (.element [] outer) =
        .ok (.after (.array []) outer, rest) := rfl
    change run st ('[' :: ']' :: rest) = _
    rw [run_openArray hst hroom, run_step rfl hend]
    rfl
  | cons t ts =>
    have hrooms : ∀ t' ∈ t :: ts, t'.depth + outer.length < openLimit := by
      intro t' ht'
      have hitems := Tree.depthItems_le_iff.1 (Nat.le_refl _) t' ht'
      rw [Tree.depth] at hdepth
      omega
    obtain ⟨ht, hts⟩ := List.forall_mem_cons.1 h
    obtain ⟨hfirst, hothers⟩ := List.forall_mem_cons.1 hrooms
    rw [write, List.cons_append, run_openArray hst hroom]
    simp only [List.append_assoc, List.singleton_append]
    rw [run_lineStart,
      ht _ _ (level + 1) _ (State.awaits_element [] outer) hfirst
        (ends_writeItems layout level ts _)]
    exact run_items level hts hothers [] (f t) rest

/-! ## 6. Objects -/

theorem ends_writeFields (layout : Layout) (level : Nat) (fs : List (String × Json))
    (rest : List Char) :
    Numeral.Ends
      (writeFields layout (level + 1) fs ++ (layout.lineStart level ++ '}' :: rest)) := by
  cases fs with
  | nil => exact ends_lineStart layout level (.inr rfl) rest
  | cons field fs => exact Numeral.ends_cons.2 (by decide)

/-- Behind a field the machine reads the fields that are left, and the end of the object.  Names
that are distinct keep the order in which they come. -/
theorem run_fields {layout : Layout} {f : Json → Json} (level : Nat) {outer : List Frame}
    {fs : List (String × Json)} (h : ∀ field ∈ fs, ReadBack layout field.2 (f field.2))
    (hdepth : ∀ field ∈ fs, field.2.depth + outer.length < openLimit) (done : Fields Json)
    (k : String) (u : Json) (hnodup : (Fields.keys done ++ k :: Fields.keys fs).Nodup)
    (rest : List Char) :
    run (.after u (.object done k :: outer))
        (writeFields layout (level + 1) fs ++ (layout.lineStart level ++ '}' :: rest)) =
      run (.after (.object (done ++ (k, u) :: fs.map fun field => (field.1, f field.2))) outer)
        rest := by
  induction fs generalizing done k u with
  | nil =>
    have hend : State.step '}' rest (.after u (.object done k :: outer)) =
        .ok (.after (.object (Fields.insert k u done)) outer, rest) := rfl
    rw [writeFields, List.nil_append, run_lineStart, run_step rfl hend, Fields.insert_next hnodup]
    rfl
  | cons field fs ih =>
    obtain ⟨hfield, hfs⟩ := List.forall_mem_cons.1 h
    obtain ⟨hroom, hrooms⟩ := List.forall_mem_cons.1 hdepth
    have hcomma (cs : List Char) : run (.after u (.object done k :: outer)) (',' :: cs) =
        run (.key (done ++ [(k, u)]) outer) cs := by
      rw [← Fields.insert_next hnodup]
      exact run_step rfl rfl
    have hnodup' : (Fields.keys (done ++ [(k, u)]) ++ field.1 :: Fields.keys fs).Nodup := by
      simpa [Fields.keys] using hnodup
    rw [writeFields, List.cons_append, hcomma]
    simp only [List.append_assoc]
    rw [run_lineStart, run_name,
      hfield _ (.object (done ++ [(k, u)]) field.1 :: outer) (level + 1) _ (State.awaits_value _)
        hroom (ends_writeFields layout level fs rest),
      ih hfs hrooms (done ++ [(k, u)]) field.1 (f field.2) hnodup']
    simp

theorem run_object {layout : Layout} {f : Json → Json} {fields : List (String × Json)}
    (hnodup : (Fields.keys fields).Nodup)
    (h : ∀ field ∈ fields, ReadBack layout field.2 (f field.2)) :
    ReadBack layout (.object fields) (.object (fields.map fun field => (field.1, f field.2))) := by
  intro st outer level rest hst hdepth _
  have hroom : outer.length < openLimit := by
    rw [Tree.depth] at hdepth
    omega
  cases fields with
  | nil =>
    have hend : State.step '}' rest (.key [] outer) = .ok (.after (.object []) outer, rest) := rfl
    change run st ('{' :: '}' :: rest) = _
    rw [run_openObject hst hroom, run_step rfl hend]
    rfl
  | cons field fs =>
    have hrooms : ∀ field' ∈ field :: fs, field'.2.depth + outer.length < openLimit := by
      intro field' hfield'
      have hfields := Tree.depthFields_le_iff.1 (Nat.le_refl _) field' hfield'
      rw [Tree.depth] at hdepth
      omega
    obtain ⟨hfield, hfs⟩ := List.forall_mem_cons.1 h
    obtain ⟨hfirst, hothers⟩ := List.forall_mem_cons.1 hrooms
    rw [write, List.cons_append, run_openObject hst hroom]
    simp only [List.append_assoc, List.singleton_append]
    rw [run_lineStart, run_name,
      hfield _ (.object [] field.1 :: outer) (level + 1) _ (State.awaits_value _) hfirst
        (ends_writeFields layout level fs rest)]
    exact run_fields level hfs hothers [] field.1 (f field.2) hnodup rest

/-! ## 7. Whole trees -/

/-- **A written tree is read back node for node**, with every number replaced by what its numeral
is read as. -/
theorem readBack {reread : Number → Number} (layout : Layout) {t : Json} (hw : t.WellFormed)
    (hn : ∀ x ∈ t.numbers, x.ReadBack (reread x)) :
    ReadBack layout t (t.bind fun x => .number (reread x)) := by
  induction hw with
  | null => exact run_null layout
  | bool b => exact run_bool layout b
  | number x => exact run_number (hn x List.mem_cons_self)
  | string s => exact run_string layout s
  | @array items _ ih =>
    rw [Tree.bind_array]
    refine run_array ?_
    intro t ht
    refine ih t ht ?_
    intro x hx
    exact hn x (Tree.mem_numbers_array.2 ⟨t, ht, hx⟩)
  | @object fields hnodup _ ih =>
    rw [Tree.bind_object]
    refine run_object hnodup ?_
    intro field hfield
    refine ih field hfield ?_
    intro x hx
    exact hn x (Tree.mem_numbers_object.2 ⟨field, hfield, hx⟩)

/-- Blanks behind a number end it. -/
theorem ends_of_blank {bs : List Char} (hbs : ∀ b ∈ bs, isBlank b = true) : Numeral.Ends bs := by
  intro c hc
  have hblank := hbs c (List.mem_of_mem_head? hc)
  simp only [isBlank, Bool.or_eq_true, beq_iff_eq] at hblank
  rcases hblank with ((rfl | rfl) | rfl) | rfl
  all_goals decide

/-- Behind a value the end of the text may follow, or blanks and the end. -/
theorem run_after_blanks {bs : List Char} (hbs : ∀ b ∈ bs, isBlank b = true) (t : Json) :
    run (.after t []) bs = .ok t := by
  have hrun := run_blanks hbs (.after t []) []
  rwa [List.append_nil, run_nil] at hrun

/-- **What is written is read**, if it is no deeper than the reader goes, and with blanks behind it
too. -/
theorem read_write_blanks {reread : Number → Number} (layout : Layout) {t : Json}
    (hw : t.WellFormed) (hdepth : t.depth ≤ openLimit) (hn : ∀ x ∈ t.numbers, x.ReadBack (reread x))
    {bs : List Char} (hbs : ∀ b ∈ bs, isBlank b = true) :
    read (write layout 0 t ++ bs) = .ok (t.bind fun x => .number (reread x)) := by
  have hrun := readBack layout hw hn (.value []) [] 0 bs (State.awaits_value []) hdepth
    (ends_of_blank hbs)
  rw [read, hrun, run_after_blanks hbs]

theorem read_write {reread : Number → Number} (layout : Layout) {t : Json} (hw : t.WellFormed)
    (hdepth : t.depth ≤ openLimit) (hn : ∀ x ∈ t.numbers, x.ReadBack (reread x)) :
    read (write layout 0 t) = .ok (t.bind fun x => .number (reread x)) := by
  have hread := read_write_blanks layout hw hdepth hn (List.forall_mem_nil _)
  rwa [List.append_nil] at hread

end Json

end DocPath
