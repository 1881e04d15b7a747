import DocPath.Proofs.Grammar
import DocPath.Proofs.Joining

/-!
# Where a path text is refused

The strict reader refuses a text for one reason and says at which byte.  The reasons are written
down here by what can be seen in the text around that place (`Path.FaultAt`), without the pieces
that the reader works with.  A text that is refused shows what the words of the refusal say, right
there, and the reason is the first one: what stands before it is accepted, but for a dot at its end
(`refused_at_first_fault`).

The proof goes up the floors of the grammar, from groups to parts to texts.  On every floor the text
behind what is accepted so far is cut at the fault (`StopsIn`), and what was accepted moves in front
of it in one way only (`StopsIn.prepend`); each floor adds what it accepts.  Bytes are never added
up: the bytes before a place are the bytes of the text before it.
-/

namespace DocPath

/-! ## 1. What can be seen at a fault -/

/-- The text up to the next dot, or all of it if there is none. -/
def Text.beforeDot (cs : List Char) : List Char := cs.takeWhile (· ≠ '.')

/-- The text without the dot at its end, if it ends with one. -/
def Text.withoutFinalDot (cs : List Char) : List Char :=
  if ['.'] <:+ cs then cs.dropLast else cs

namespace Path

/-- What stands around the place where a text is refused with these words.  The place lies behind
`front` and `lead`, and `rest` follows; `lead` is the bracket that was already entered, if one
was. -/
inductive FaultAt : String → List Char → List Char → List Char → Prop where
  /-- There is no text at the beginning or behind a dot, up to a dot or the end. -/
  | emptyPart {front rest : List Char} : (front = [] ∨ ['.'] <:+ front) →
      (rest = [] ∨ ['.'] <+: rest) → FaultAt "empty path segment" front [] rest
  /-- A `[` has no `]` before the next dot. -/
  | unclosedGroup {front rest : List Char} : ']' ∉ Text.beforeDot rest →
      FaultAt "unclosed '['" front [] ('[' :: rest)
  /-- The text between a `[` and the next `]` is neither `*` nor an integer of 64 bits. -/
  | notAnIndex {front content rest : List Char} : ']' ∉ content → '.' ∉ content →
      content ≠ ['*'] → (∀ n, IsNumeral content n → ¬ (-2 ^ 63 ≤ n ∧ n < 2 ^ 63)) →
      FaultAt
        ("expected an integer or '*' inside brackets, found '" ++ String.ofList content ++ "'")
        front ['['] (content ++ ']' :: rest)
  /-- Behind a `]` there is text, and before the next dot another `[`. -/
  | textBetweenGroups {front rest : List Char} {c : Char} : [']'] <:+ front → c ≠ '[' → c ≠ '.' →
      '[' ∈ Text.beforeDot rest →
      FaultAt "unexpected text between bracket groups" front [] (c :: rest)
  /-- Behind a `]` there is text, and before the next dot no other `[`. -/
  | textAfterGroups {front rest : List Char} {c : Char} : [']'] <:+ front → c ≠ '[' → c ≠ '.' →
      '[' ∉ Text.beforeDot rest →
      FaultAt "unexpected text after ']'" front [] (c :: rest)

/-- Behind `before` the text `cs` goes on with something accepted, and then shows the fault. -/
def StopsIn (accepted : List Char → Prop) (before cs : List Char) (fault : PathFault) : Prop :=
  ∃ front lead rest, cs = front ++ (lead ++ rest) ∧ accepted front ∧
    fault.position = Text.byteCount (before ++ front ++ lead) ∧
    FaultAt fault.flaw.message (before ++ front) lead rest

variable {accepted accepted' : List Char → Prop} {before middle cs tail : List Char}
  {fault : PathFault}

/-- What stands between is accepted together with what follows it. -/
theorem StopsIn.prepend (h : StopsIn accepted (before ++ middle) cs fault)
    (haccepted : ∀ front, accepted front → accepted' (middle ++ front)) :
    StopsIn accepted' before (middle ++ cs) fault := by
  obtain ⟨front, lead, rest, rfl, hfront, hposition, hat⟩ := h
  rw [List.append_assoc before] at hposition hat
  exact ⟨middle ++ front, lead, rest, (List.append_assoc _ _ _).symm, haccepted front hfront,
    hposition, hat⟩

/-- A fault that follows at once. -/
theorem StopsIn.here {flaw : Flaw} (lead : List Char) {rest : List Char} (haccepted : accepted [])
    (hlead : Text.byteCount lead = flaw.lead) (hat : FaultAt flaw.message before lead rest) :
    StopsIn accepted before (lead ++ rest) ⟨Text.byteCount before + flaw.lead, flaw⟩ := by
  refine ⟨[], lead, rest, rfl, haccepted, ?_, ?_⟩
  · rw [List.append_nil, Text.byteCount_append, hlead]
  · rwa [List.append_nil]

theorem StopsIn.mono (h : StopsIn accepted before cs fault)
    (haccepted : ∀ front, accepted front → accepted' front) :
    StopsIn accepted' before cs fault := by
  obtain ⟨front, lead, rest, hcs, hfront, hposition, hat⟩ := h
  exact ⟨front, lead, rest, hcs, haccepted front hfront, hposition, hat⟩

/-! ## 2. Groups -/

/-- A text that ends where a part ends: at a dot or at the end of the whole. -/
def EndsPart (tail : List Char) : Prop := tail = [] ∨ ['.'] <+: tail

theorem beforeDot_append (hdot : '.' ∉ cs) (htail : EndsPart tail) :
    Text.beforeDot (cs ++ tail) = cs := by
  have hcs : ∀ c ∈ cs, decide (c ≠ '.') = true := by
    intro c hc
    have hne : c ≠ '.' := fun e => hdot (e ▸ hc)
    simp [hne]
  have hnone : tail.takeWhile (· ≠ '.') = [] := by
    rcases htail with rfl | ⟨rest, rfl⟩
    · rfl
    · simp
  rw [Text.beforeDot, List.takeWhile_append_of_pos hcs, hnone, List.append_nil]

/-- Groups of the grammar, one after the other. -/
def AreGroups (front : List Char) : Prop :=
  ∃ gs p, front = gs.flatten ∧ List.Forall₂ IsGroup gs p

theorem areGroups_nil : AreGroups [] := ⟨[], [], rfl, .nil⟩

theorem AreGroups.cons {g front : List Char} {s : Segment} (hg : IsGroup g s)
    (h : AreGroups front) : AreGroups (g ++ front) := by
  obtain ⟨gs, p, rfl, hgs⟩ := h
  exact ⟨g :: gs, s :: p, rfl, .cons hg hgs⟩

/-- What the strict reader finds fault with inside brackets is no segment. -/
theorem not_index_of_ofGroup? {content : List Char} (h : Segment.ofGroup? content = none) :
    content ≠ ['*'] ∧ ∀ n, IsNumeral content n → ¬ (-2 ^ 63 ≤ n ∧ n < 2 ^ 63) := by
  have hnone (s : Segment) : ¬ IsGroup ('[' :: (content ++ [']'])) s := by
    intro hs
    cases h.symm.trans (Segment.ofGroup?_eq_some_iff.2 hs)
  refine ⟨?_, ?_⟩
  · rintro rfl
    exact hnone _ .wildcard
  · rintro n hn ⟨hlow, hhigh⟩
    exact hnone _ (.index hn hlow hhigh)

/-- Text that begins with no `[` stands behind a group if it stands in the place of one. -/
theorem endsGroup_of_ne {c : Char} (hc : c ≠ '[') (hstart : ['['] <+: c :: cs ∨ [']'] <:+ before) :
    [']'] <:+ before := by
  refine hstart.resolve_left ?_
  rintro ⟨rest, hrest⟩
  exact hc (List.cons.inj hrest).1.symm

/-- A fault in the groups of a part, behind a text that ends with a group unless a `[` comes
next. -/
theorem stopsIn_groups (hdot : '.' ∉ cs) (htail : EndsPart tail)
    (hstart : ['['] <+: cs ∨ [']'] <:+ before)
    (h : Piece.firstFault? (Text.byteCount before) (Piece.groups cs) = some fault) :
    StopsIn AreGroups before (cs ++ tail) fault := by
  fun_induction Piece.groups cs generalizing before with
  | case1 => cases h
  | case2 cs hcut =>
    have hdots : '.' ∉ cs := fun hc => hdot (List.mem_cons_of_mem _ hc)
    rw [Piece.firstFault?_cons_of_flaw rfl] at h
    cases h
    refine .here [] areGroups_nil rfl (.unclosedGroup ?_)
    have hclose := Text.cut?_eq_none_iff.1 hcut
    rwa [← beforeDot_append hdots htail] at hclose
  | case3 cs content after hcut ih =>
    obtain ⟨rfl, hclose⟩ := Text.cut?_eq_some_iff.1 hcut
    simp only [List.mem_cons, List.mem_append, not_or] at hdot
    obtain ⟨-, hcontent, -, hafter⟩ := hdot
    cases hsegment : Segment.ofGroup? content with
    | none =>
      obtain ⟨hstar, hindex⟩ := not_index_of_ofGroup? hsegment
      have hflaw : (Piece.group content).flaw? =
          some (.notAnIndex (String.ofList content)) := by
        rw [Piece.flaw?, hsegment]
        rfl
      have hat : FaultAt (Flaw.notAnIndex (String.ofList content)).message before ['[']
          (content ++ ']' :: (after ++ tail)) := .notAnIndex hclose hcontent hstar hindex
      rw [Piece.firstFault?_cons_of_flaw hflaw] at h
      cases h
      have hstop := StopsIn.here ['['] areGroups_nil rfl hat
      rw [List.cons_append, List.append_assoc]
      exact hstop
    | some s =>
      have hgroup : IsGroup (Piece.group content).chars s :=
        Segment.ofGroup?_eq_some_iff.1 hsegment
      have hsound : (Piece.group content).flaw? = none := by
        rw [Piece.flaw?_group_eq_none_iff, hsegment]
        rfl
      have hend : [']'] <:+ before ++ (Piece.group content).chars :=
        ⟨before ++ '[' :: content, by simp [Piece.chars]⟩
      rw [Piece.firstFault?_cons_of_sound hsound, ← Text.byteCount_append] at h
      have hstop := (ih hafter (.inr hend) h).prepend fun _ => AreGroups.cons hgroup
      simpa [Piece.chars] using hstop
  | case4 c cs hc hcut =>
    obtain ⟨hcdot, hdots⟩ := not_or.1 (mt List.mem_cons.2 hdot)
    rw [Piece.firstFault?_cons_of_flaw rfl] at h
    cases h
    refine .here [] areGroups_nil rfl
      (.textAfterGroups (endsGroup_of_ne hc hstart) hc (fun e => hcdot e.symm) ?_)
    have hopen := Text.cut?_eq_none_iff.1 hcut
    rwa [← beforeDot_append hdots htail] at hopen
  | case5 c cs hc text after hcut _ =>
    obtain ⟨hcdot, hdots⟩ := not_or.1 (mt List.mem_cons.2 hdot)
    rw [Piece.firstFault?_cons_of_flaw rfl] at h
    cases h
    refine .here [] areGroups_nil rfl
      (.textBetweenGroups (endsGroup_of_ne hc hstart) hc (fun e => hcdot e.symm) ?_)
    have hopen : '[' ∈ cs := by
      rw [(Text.cut?_eq_some_iff.1 hcut).1]
      exact List.mem_append_right _ List.mem_cons_self
    rwa [← beforeDot_append hdots htail] at hopen

/-! ## 3. Parts -/

/-- Nothing, or a part of the grammar. -/
def BeginsPart (front : List Char) : Prop := front = [] ∨ ∃ p, IsPart front p

/-- A key and groups behind it make a part, and so do groups alone. -/
theorem beginsPart_append {name front : List Char} (hdot : '.' ∉ name) (hopen : '[' ∉ name)
    (h : AreGroups front) : BeginsPart (name ++ front) := by
  obtain ⟨gs, p, rfl, hgs⟩ := h
  by_cases hname : name = []
  · subst hname
    cases hgs with
    | nil => exact .inl rfl
    | cons hg hgs => exact .inr ⟨_, .bare (List.cons_ne_nil _ _) (.cons hg hgs)⟩
  · exact .inr ⟨_, .keyed hname hdot hopen hgs⟩

/-- A fault in a part, which begins at the beginning of the text or behind a dot. -/
theorem stopsIn_part {part : List Char} (hdot : '.' ∉ part) (htail : EndsPart tail)
    (hbefore : before = [] ∨ ['.'] <:+ before)
    (h : Piece.firstFault? (Text.byteCount before) (Piece.ofPart part) = some fault) :
    StopsIn BeginsPart before (part ++ tail) fault := by
  rcases Piece.ofPart_cases part with rfl | ⟨hne, hopen⟩ | ⟨name, rest, rfl, hopen⟩
  · rw [Piece.ofPart_nil, Piece.firstFault?_cons_of_flaw rfl] at h
    cases h
    exact .here [] (.inl rfl) rfl (.emptyPart hbefore htail)
  · -- a key is sound
    rw [Piece.ofPart_of_not_mem hne hopen, Piece.firstFault?_cons_of_sound rfl] at h
    cases h
  · simp only [List.mem_append, not_or] at hdot
    obtain ⟨hname, hrest⟩ := hdot
    have hgroups : Piece.firstFault? (Text.byteCount (before ++ name))
        (Piece.groups ('[' :: rest)) = some fault := by
      rw [Piece.ofPart_append hopen] at h
      split at h
      · next hnil => rwa [hnil, List.append_nil]
      · rwa [List.singleton_append, Piece.firstFault?_cons_of_sound rfl,
          ← Text.byteCount_append] at h
    have hstop := stopsIn_groups hrest htail (.inl ⟨rest, rfl⟩) hgroups
    rw [List.append_assoc]
    exact hstop.prepend fun _ => beginsPart_append hname hopen

/-! ## 4. Texts -/

/-- A part of the grammar is a text without faults. -/
theorem sound_ofText_of_isPart {part : List Char} {p : Path} (h : IsPart part p) :
    Piece.Sound (Piece.ofText part) := by
  rw [Piece.ofText_of_not_mem (not_mem_of_isPart h)]
  exact (Piece.sound_ofPart_of_isPart h).1

theorem sound_ofText_join {as bs : List Char} :
    Piece.Sound (Piece.ofText (as ++ '.' :: bs)) ↔
      Piece.Sound (Piece.ofText as) ∧ Piece.Sound (Piece.ofText bs) := by
  rw [Piece.ofText_join, Piece.sound_append, Piece.sound_cons]
  exact and_congr_right fun _ => and_iff_right rfl

/-- Nothing, or a text without faults, perhaps with a dot behind it. -/
def BeginsText (front : List Char) : Prop :=
  front = [] ∨ ∃ cs, Piece.Sound (Piece.ofText cs) ∧ (front = cs ∨ front = cs ++ ['.'])

theorem BeginsPart.beginsText {front : List Char} (h : BeginsPart front) : BeginsText front := by
  rcases h with rfl | ⟨p, hp⟩
  · exact .inl rfl
  · exact .inr ⟨front, sound_ofText_of_isPart hp, .inl rfl⟩

/-- A text without faults and a dot may come before. -/
theorem BeginsText.join {as front : List Char} (hsound : Piece.Sound (Piece.ofText as))
    (h : BeginsText front) : BeginsText (as ++ ['.'] ++ front) := by
  rcases h with rfl | ⟨cs, hcs, rfl | rfl⟩
  · exact .inr ⟨as, hsound, .inr (List.append_nil _)⟩
  · exact .inr ⟨as ++ '.' :: front, sound_ofText_join.2 ⟨hsound, hcs⟩, .inl (by simp)⟩
  · exact .inr ⟨as ++ '.' :: cs, sound_ofText_join.2 ⟨hsound, hcs⟩, .inr (by simp)⟩

/-- A fault in a text, which begins at the beginning of the whole or behind a dot. -/
theorem stopsIn_text (hbefore : before = [] ∨ ['.'] <:+ before)
    (h : Piece.firstFault? (Text.byteCount before) (Piece.ofText cs) = some fault) :
    StopsIn BeginsText before cs fault := by
  induction cs using Text.induct_join (c := '.') generalizing before with
  | single part hdot =>
    rw [Piece.ofText_of_not_mem hdot] at h
    have hstop := stopsIn_part hdot (.inl rfl) hbefore h
    rw [List.append_nil] at hstop
    exact hstop.mono fun _ => BeginsPart.beginsText
  | join part rest hdot ih =>
    rw [Piece.firstFault?_join, Piece.ofText_of_not_mem hdot, ← Text.byteCount_append] at h
    cases hpart : Piece.firstFault? (Text.byteCount before) (Piece.ofPart part) with
    | some fault' =>
      rw [hpart, Option.some_or] at h
      cases h
      have hstop := stopsIn_part hdot (.inr ⟨rest, rfl⟩) hbefore hpart
      exact hstop.mono fun _ => BeginsPart.beginsText
    | none =>
      rw [hpart, Option.none_or] at h
      have hsound : Piece.Sound (Piece.ofText part) := by
        rw [Piece.ofText_of_not_mem hdot]
        exact Piece.firstFault?_eq_none_iff.1 hpart
      have hend : ['.'] <:+ before ++ (part ++ ['.']) := ⟨before ++ part, by simp⟩
      have hstop := (ih (.inr hend) h).prepend fun _ => BeginsText.join hsound
      rwa [List.append_assoc, List.singleton_append] at hstop

/-! ## 5. The strict reader -/

/-- A text without faults is accepted. -/
theorem exists_ofText?_of_sound (h : Piece.Sound (Piece.ofText cs)) :
    ∃ p, ofText? (String.ofList cs) = .ok p := by
  refine ⟨ofText (String.ofList cs), ofText?_eq_ok_iff_fault?.2 ⟨?_, rfl⟩⟩
  unfold fault?
  split
  · rfl
  · rwa [Piece.findSome?_locate_eq_none_iff, String.toList_ofList]

/-- What stands before the fault is accepted, but for a dot at its end. -/
theorem BeginsText.exists_ofText? {front : List Char} (h : BeginsText front) :
    ∃ p, ofText? (String.ofList (Text.withoutFinalDot front)) = .ok p := by
  rcases h with rfl | ⟨cs, hsound, rfl | rfl⟩
  · exact ⟨[], rfl⟩
  · have hfinal : ¬ ['.'] <:+ front := by
      -- behind a final dot there would be a part without text
      rintro ⟨cs, rfl⟩
      have hnil := sound_ofText_join.1 hsound
      cases (Piece.sound_cons.1 hnil.2).1
    rw [Text.withoutFinalDot, if_neg hfinal]
    exact exists_ofText?_of_sound hsound
  · rw [Text.withoutFinalDot, if_pos (List.suffix_append cs ['.']), List.dropLast_concat]
    exact exists_ofText?_of_sound hsound

/-- **A text is refused at its first fault.**  The refusal names the whole text.  Its position is a
number of bytes that the text has, with a character beginning or the text ending there; around this
place the text shows what the words of the refusal say; and what stands before the fault is
accepted, but for a dot at its end. -/
theorem refused_at_first_fault {text : String} {failure : Failure}
    (h : (PathSource.read .strict text).address? = .error failure) :
    ∃ fault : PathFault, failure = .path text fault ∧
      fault.position ≤ text.utf8ByteSize ∧
      String.Pos.Raw.IsValid text ⟨fault.position⟩ ∧
      ∃ front lead rest : List Char, text.toList = front ++ (lead ++ rest) ∧
        fault.position = (String.ofList (front ++ lead)).utf8ByteSize ∧
        FaultAt fault.flaw.message front lead rest ∧
        ∃ p, ofText? (String.ofList (Text.withoutFinalDot front)) = .ok p := by
  obtain ⟨fault, rfl, hfault⟩ : ∃ fault, failure = .path text fault ∧ fault? text = some fault := by
    rw [PathSource.address?, read] at h
    cases hread : ofText? text with
    | ok p =>
      rw [hread] at h
      cases h
    | error fault =>
      rw [hread] at h
      cases h
      exact ⟨fault, rfl, ofText?_eq_error_iff.1 hread⟩
  have hne : text ≠ "" := by
    rintro rfl
    cases hfault
  rw [fault?_of_ne hne] at hfault
  obtain ⟨front, lead, rest, htext, hfront, hposition, hat⟩ := stopsIn_text (.inl rfl) hfault
  have hbytes : fault.position = (String.ofList (front ++ lead)).utf8ByteSize := by
    rw [hposition, ← Text.byteCount_toList, String.toList_ofList]
    rfl
  have hcut : text = String.ofList (front ++ lead) ++ String.ofList rest := by
    rw [← String.ofList_append, List.append_assoc, ← htext, String.ofList_toList]
  have hvalid : String.Pos.Raw.IsValid text ⟨fault.position⟩ :=
    String.Pos.Raw.isValid_iff_exists_append.2 ⟨_, _, hcut, by rw [hbytes]; rfl⟩
  exact ⟨fault, rfl, hvalid.le_utf8ByteSize, hvalid, front, lead, rest, htext, hbytes, hat,
    hfront.exists_ofText?⟩

namespace Example

/-- A `[` is unclosed in the same part, but the text before it comes first: behind seven bytes, of
which the first character takes two. -/
theorem refused_between_groups :
    (PathSource.read .strict "é.b[0]ß[1.]").address? =
        .error (.path "é.b[0]ß[1.]" ⟨7, .textBetweenGroups⟩) ∧
      7 ≤ "é.b[0]ß[1.]".utf8ByteSize ∧ String.Pos.Raw.IsValid "é.b[0]ß[1.]" ⟨7⟩ ∧
      ∃ front lead rest : List Char, "é.b[0]ß[1.]".toList = front ++ (lead ++ rest) ∧
        7 = (String.ofList (front ++ lead)).utf8ByteSize ∧
        FaultAt "unexpected text between bracket groups" front lead rest ∧
        ∃ p, ofText? (String.ofList (Text.withoutFinalDot front)) = .ok p := by
  have hread : ofText? "é.b[0]ß[1.]" = .error ⟨7, .textBetweenGroups⟩ :=
    ofText?_eq_error_iff.2 (by decide +kernel)
  have hrefused : (PathSource.read .strict "é.b[0]ß[1.]").address? =
      .error (.path "é.b[0]ß[1.]" ⟨7, .textBetweenGroups⟩) := by
    rw [PathSource.address?, read, hread]
  obtain ⟨fault, hfailure, hbytes, hvalid, hshown⟩ := refused_at_first_fault hrefused
  cases hfailure
  exact ⟨hrefused, hbytes, hvalid, hshown⟩

end Example

end Path

end DocPath
