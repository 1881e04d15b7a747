import Mathlib.Data.Nat.Digits.Defs
import Mathlib.Data.List.Forall2
import DocPath.Address
import DocPath.Proofs.Pieces

/-!
# The grammar of path texts

The grammar is written down here on its own, as four relations between a text and what it stands
for: a numeral and its integer, a bracket group and its segment, a part and its segments, a whole
text and its path.  Nothing in them scans or cuts a text.  The strict reader accepts exactly the
texts of the grammar, and reads each as the path that the grammar gives it
(`ofText?_eq_ok_iff_isPathText`).

Both directions go up the same four floors.  From the reader to the grammar, sound pieces are
collected into groups and parts (`exists_groups_of_sound`, `isPart_of_sound`).  From the grammar to
the reader, the form of a group shows where its `[` and its first `]` are, and the form of a part
that it holds no dot, so that the cuts fall where the grammar joined
(`sound_groups_of_isGroup`, `sound_ofPart_of_isPart`, `not_mem_of_isPart`).
-/

namespace DocPath

/-! ## 1. The grammar -/

/-- The number that decimal digits denote, the last digit counting ones. -/
def decimal (digits : List Char) : Nat :=
  Nat.ofDigits 10 (digits.reverse.map fun d => d.toNat - '0'.toNat)

/-- A numeral: at least one decimal digit after at most one sign. -/
inductive IsNumeral : List Char → Int → Prop where
  | bare {digits : List Char} : digits ≠ [] → (∀ d ∈ digits, d.isDigit) →
      IsNumeral digits (decimal digits)
  | plus {digits : List Char} : digits ≠ [] → (∀ d ∈ digits, d.isDigit) →
      IsNumeral ('+' :: digits) (decimal digits)
  | minus {digits : List Char} : digits ≠ [] → (∀ d ∈ digits, d.isDigit) →
      IsNumeral ('-' :: digits) (-(decimal digits : Int))

/-- A bracket group: `*`, or a numeral of an integer that 64 bits hold. -/
inductive IsGroup : List Char → Segment → Prop where
  | wildcard : IsGroup ['[', '*', ']'] .wildcard
  | index {content : List Char} {n : Int} : IsNumeral content n → -2 ^ 63 ≤ n → n < 2 ^ 63 →
      IsGroup ('[' :: (content ++ [']'])) (.index (Int64.ofInt n))

/-- A part that is not empty: a key and groups, or groups only. -/
inductive IsPart : List Char → Path → Prop where
  | keyed {name : List Char} {gs : List (List Char)} {p : Path} : name ≠ [] → '.' ∉ name →
      '[' ∉ name → List.Forall₂ IsGroup gs p →
      IsPart (name ++ gs.flatten) (.key (String.ofList name) :: p)
  | bare {gs : List (List Char)} {p : Path} : gs ≠ [] → List.Forall₂ IsGroup gs p →
      IsPart gs.flatten p

/-- A path text: no text at all, or parts with dots between them. -/
inductive IsPathText : List Char → Path → Prop where
  | empty : IsPathText [] []
  | parts {parts : List (List Char)} {ps : List Path} : parts ≠ [] →
      List.Forall₂ IsPart parts ps → IsPathText (['.'].intercalate parts) ps.flatten

/-! ## 2. Numerals -/

namespace Text

theorem ofDigitChars_eq_decimal (cs : List Char) : Nat.ofDigitChars 10 cs 0 = decimal cs := by
  induction cs with
  | nil => rfl
  | cons c cs ih =>
    rw [Nat.ofDigitChars_cons, Nat.ofDigitChars_eq_ofDigitChars_zero, ih, decimal, decimal,
      List.map_reverse, List.map_reverse, List.map_cons, Nat.ofDigits_reverse_cons,
      List.length_map, Nat.mul_zero, Nat.zero_add]
    exact Nat.add_comm _ _

theorem readNat?_eq_some_iff {cs : List Char} {n : Nat} :
    readNat? cs = some n ↔ cs ≠ [] ∧ (∀ d ∈ cs, d.isDigit) ∧ decimal cs = n := by
  rw [readNat?, ofDigitChars_eq_decimal]
  simp only [List.all_eq_true, Option.ite_none_right_eq_some, Option.some.injEq, and_assoc]

/-- Reading an integer is the inverse of the grammar of numerals. -/
theorem readInt?_eq_some_iff {cs : List Char} {n : Int} :
    readInt? cs = some n ↔ IsNumeral cs n := by
  have digits {ds : List Char} {m : Int}
      (h : ((readNat? ds).bind fun k => some (k : Int)) = some m) :
      ds ≠ [] ∧ (∀ d ∈ ds, d.isDigit) ∧ (decimal ds : Int) = m := by
    obtain ⟨k, hk, hkm⟩ := Option.bind_eq_some_iff.1 h
    obtain ⟨hne, hd, hdec⟩ := readNat?_eq_some_iff.1 hk
    exact ⟨hne, hd, hdec ▸ Option.some.inj hkm⟩
  constructor
  · intro h
    unfold readInt? at h
    split at h
    · obtain ⟨m, hm, rfl⟩ := Option.map_eq_some_iff.1 h
      obtain ⟨hne, hd, rfl⟩ := digits hm
      exact .minus hne hd
    · obtain ⟨m, hm, rfl⟩ := Option.map_eq_some_iff.1 h
      obtain ⟨hne, hd, rfl⟩ := digits hm
      exact .plus hne hd
    · obtain ⟨m, hm, rfl⟩ := Option.map_eq_some_iff.1 h
      obtain ⟨hne, hd, rfl⟩ := digits hm
      exact .bare hne hd
  · intro h
    cases h with
    | bare hne hd =>
      cases cs with
      | nil => exact absurd rfl hne
      | cons d ds =>
        rw [readInt?_of_isDigit ds (hd d List.mem_cons_self),
          readNat?_eq_some_iff.2 ⟨hne, hd, rfl⟩]
        rfl
    | plus hne hd =>
      rw [readInt?, readNat?_eq_some_iff.2 ⟨hne, hd, rfl⟩]
      rfl
    | minus hne hd =>
      rw [readInt?, readNat?_eq_some_iff.2 ⟨hne, hd, rfl⟩]
      rfl

theorem readInt64?_eq_some_iff {cs : List Char} {i : Int64} :
    readInt64? cs = some i ↔
      ∃ n, IsNumeral cs n ∧ -2 ^ 63 ≤ n ∧ n < 2 ^ 63 ∧ Int64.ofInt n = i := by
  have range (n : Int) : (Int64.minValue.toInt ≤ n ∧ n ≤ Int64.maxValue.toInt) ↔
      -2 ^ 63 ≤ n ∧ n < 2 ^ 63 := by
    rw [Int64.toInt_minValue, Int64.toInt_maxValue]
    omega
  rw [readInt64?, Option.bind_eq_some_iff]
  constructor
  · rintro ⟨n, hn, hi⟩
    split at hi
    · next hr =>
      obtain ⟨hlow, hhigh⟩ := (range n).1 hr
      exact ⟨n, readInt?_eq_some_iff.1 hn, hlow, hhigh, Option.some.inj hi⟩
    · cases hi
  · rintro ⟨n, hn, hlow, hhigh, rfl⟩
    exact ⟨n, readInt?_eq_some_iff.2 hn, if_pos ((range n).2 ⟨hlow, hhigh⟩)⟩

/-- A numeral is made of a sign and digits, so a character that is neither is not in it. -/
theorem not_mem_of_isNumeral {cs : List Char} {n : Int} (h : IsNumeral cs n) {c : Char}
    (hd : c.isDigit = false) (hplus : c ≠ '+') (hminus : c ≠ '-') : c ∉ cs := by
  have notDigit {digits : List Char} (hall : ∀ d ∈ digits, d.isDigit) : c ∉ digits := by
    intro hc
    simp [hall c hc] at hd
  cases h with
  | bare _ hall => exact notDigit hall
  | plus _ hall => simp [hplus, notDigit hall]
  | minus _ hall => simp [hminus, notDigit hall]

end Text

/-! ## 3. Groups -/

theorem Segment.ofGroup?_eq_some_iff {content : List Char} {s : Segment} :
    ofGroup? content = some s ↔ IsGroup ('[' :: (content ++ [']'])) s := by
  unfold ofGroup?
  constructor
  · intro h
    split at h
    · next hstar =>
      rw [hstar, ← Option.some.inj h]
      exact .wildcard
    · obtain ⟨i, hi, rfl⟩ := Option.map_eq_some_iff.1 h
      obtain ⟨n, hn, hlow, hhigh, rfl⟩ := Text.readInt64?_eq_some_iff.1 hi
      exact .index hn hlow hhigh
  · intro h
    generalize hg : '[' :: (content ++ [']']) = g at h
    cases h with
    | wildcard =>
      have : content ++ [']'] = ['*'] ++ [']'] := (List.cons.inj hg).2
      rw [List.append_cancel_right this, if_pos rfl]
    | @index content' n hn hlow hhigh =>
      have heq : content = content' := List.append_cancel_right (List.cons.inj hg).2
      subst heq
      have hstar : content ≠ ['*'] := by
        rintro rfl
        exact Text.not_mem_of_isNumeral hn (c := '*') rfl (by decide) (by decide)
          List.mem_cons_self
      rw [if_neg hstar, Text.readInt64?_eq_some_iff.2 ⟨n, hn, hlow, hhigh, rfl⟩]
      rfl

/-- A group stands between its `[` and its only `]`, and holds no dot. -/
theorem exists_content_of_isGroup {g : List Char} {s : Segment} (h : IsGroup g s) :
    ∃ content, g = '[' :: (content ++ [']']) ∧ ']' ∉ content ∧ '.' ∉ content := by
  cases h with
  | wildcard => exact ⟨['*'], rfl, by decide, by decide⟩
  | @index content n hn _ _ =>
    exact ⟨content, rfl, Text.not_mem_of_isNumeral hn rfl (by decide) (by decide),
      Text.not_mem_of_isNumeral hn rfl (by decide) (by decide)⟩

namespace Piece

/-- Pieces from a `[` on that are sound are groups, and their segments are the groups'. -/
theorem exists_groups_of_sound {cs : List Char} (h : Sound (groups cs)) :
    ∃ gs, cs = gs.flatten ∧ List.Forall₂ IsGroup gs (segments (groups cs)) := by
  fun_induction groups cs with
  | case1 => exact ⟨[], rfl, .nil⟩
  | case2 cs _ => cases (sound_cons.1 h).1
  | case3 cs content after hcut ih =>
    obtain ⟨hcontent, hafter⟩ := sound_cons.1 h
    obtain ⟨s, hs⟩ := Option.isSome_iff_exists.1 (flaw?_group_eq_none_iff.1 hcontent)
    obtain ⟨gs, rfl, hgs⟩ := ih hafter
    refine ⟨('[' :: (content ++ [']'])) :: gs, ?_, ?_⟩
    · rw [(Text.cut?_eq_some_iff.1 hcut).1]
      simp
    · rw [segments_cons, segment?, hs]
      exact .cons (Segment.ofGroup?_eq_some_iff.1 hs) hgs
  | case4 c cs _ _ => cases (sound_cons.1 h).1
  | case5 c cs _ before after _ _ => cases (sound_cons.1 h).1

/-- Groups one after the other are read as sound pieces of the same segments. -/
theorem sound_groups_of_isGroup {gs : List (List Char)} {p : Path}
    (h : List.Forall₂ IsGroup gs p) :
    Sound (groups gs.flatten) ∧ segments (groups gs.flatten) = p := by
  induction h with
  | nil => exact ⟨by simp [groups], by simp [groups]⟩
  | @cons g s gs p hg _ ih =>
    obtain ⟨content, rfl, hclose, -⟩ := exists_content_of_isGroup hg
    have hs := Segment.ofGroup?_eq_some_iff.2 hg
    have hcut : groups (List.flatten (('[' :: (content ++ [']'])) :: gs)) =
        group content :: groups gs.flatten := by
      simpa using groups_append hclose gs.flatten
    rw [hcut, sound_cons, segments_cons, flaw?_group_eq_none_iff, segment?, hs, ih.2]
    exact ⟨⟨rfl, ih.1⟩, rfl⟩

/-! ## 4. Parts -/

/-- A part without dots whose pieces are sound is a part of the grammar. -/
theorem isPart_of_sound {part : List Char} (hdot : '.' ∉ part) (h : Sound (ofPart part)) :
    IsPart part (segments (ofPart part)) := by
  rcases ofPart_cases part with rfl | ⟨hne, hopen⟩ | ⟨name, rest, rfl, hopen⟩
  · cases (sound_cons.1 h).1
  · have hpart := IsPart.keyed hne hdot hopen .nil
    rw [List.flatten_nil, List.append_nil] at hpart
    rw [ofPart_of_not_mem hne hopen]
    exact hpart
  · rw [ofPart_append hopen, sound_append] at h
    obtain ⟨gs, hrest, hgs⟩ := exists_groups_of_sound h.2
    have hname : '.' ∉ name := fun hc => hdot (List.mem_append_left _ hc)
    rw [ofPart_append hopen, segments_append, hrest]
    rw [hrest] at hgs
    split
    · next hnil =>
      have hne : gs ≠ [] := by
        rintro rfl
        cases hrest
      rw [hnil]
      exact .bare hne hgs
    · next hne => exact .keyed hne hname hopen hgs

/-- The first group of a part ends its key. -/
theorem ofPart_append_flatten {name : List Char} (hopen : '[' ∉ name) {gs : List (List Char)}
    {p : Path} (hgs : List.Forall₂ IsGroup gs p) (hne : gs ≠ []) :
    ofPart (name ++ gs.flatten) =
      (if name = [] then [] else [key name]) ++ groups gs.flatten := by
  cases hgs with
  | nil => exact absurd rfl hne
  | cons hg _ =>
    obtain ⟨content, rfl, -, -⟩ := exists_content_of_isGroup hg
    rw [List.flatten_cons, List.cons_append, ofPart_append hopen]

/-- A part of the grammar is read as sound pieces of the same segments. -/
theorem sound_ofPart_of_isPart {part : List Char} {p : Path} (h : IsPart part p) :
    Sound (ofPart part) ∧ segments (ofPart part) = p := by
  cases h with
  | @keyed name gs p hne hdot hopen hgs =>
    obtain ⟨hsound, hsegments⟩ := sound_groups_of_isGroup hgs
    cases gs with
    | nil =>
      cases hgs
      rw [List.flatten_nil, List.append_nil, ofPart_of_not_mem hne hopen]
      exact ⟨by simp [flaw?], rfl⟩
    | cons g gs =>
      rw [ofPart_append_flatten hopen hgs (List.cons_ne_nil g gs), if_neg hne, sound_append,
        segments_append, hsegments]
      exact ⟨⟨by simp [flaw?], hsound⟩, rfl⟩
  | @bare gs p hne hgs =>
    obtain ⟨hsound, hsegments⟩ := sound_groups_of_isGroup hgs
    have hpieces := ofPart_append_flatten (List.not_mem_nil : '[' ∉ ([] : List Char)) hgs hne
    rw [List.nil_append, if_pos rfl, List.nil_append] at hpieces
    rw [hpieces]
    exact ⟨hsound, hsegments⟩

end Piece

/-- Groups hold no dot. -/
theorem not_mem_flatten_of_isGroup {gs : List (List Char)} {p : Path}
    (h : List.Forall₂ IsGroup gs p) : '.' ∉ gs.flatten := by
  induction h with
  | nil => exact List.not_mem_nil
  | cons hg _ ih =>
    obtain ⟨content, rfl, -, hdot⟩ := exists_content_of_isGroup hg
    simp [hdot, ih]

/-- A part holds no dot. -/
theorem not_mem_of_isPart {part : List Char} {p : Path} (h : IsPart part p) : '.' ∉ part := by
  cases h with
  | keyed _ hdot _ hgs => simp [hdot, not_mem_flatten_of_isGroup hgs]
  | bare _ hgs => exact not_mem_flatten_of_isGroup hgs

/-! ## 5. Texts -/

/-- Parts of the grammar, read one by one: all their pieces are sound, and their segments are those
that the grammar gives them. -/
theorem sound_of_forall₂_isPart {parts : List (List Char)} {ps : List Path}
    (h : List.Forall₂ IsPart parts ps) :
    (∀ part ∈ parts, '.' ∉ part) ∧ (∀ part ∈ parts, Piece.Sound (Piece.ofPart part)) ∧
      (parts.flatMap fun part => Piece.segments (Piece.ofPart part)) = ps.flatten := by
  induction h with
  | nil => simp
  | @cons part p parts ps hpart _ ih =>
    obtain ⟨hdots, hsounds, hsegments⟩ := ih
    obtain ⟨hsound, hp⟩ := Piece.sound_ofPart_of_isPart hpart
    refine ⟨?_, ?_, ?_⟩
    · exact List.forall_mem_cons.2 ⟨not_mem_of_isPart hpart, hdots⟩
    · exact List.forall_mem_cons.2 ⟨hsound, hsounds⟩
    · rw [List.flatMap_cons, hp, hsegments, List.flatten_cons]

namespace Path

/-- What the strict reader accepts is a text of the grammar. -/
theorem isPathText_of_ofText? {text : String} {p : Path} (h : ofText? text = .ok p) :
    IsPathText text.toList p := by
  obtain ⟨hfault, rfl⟩ := ofText?_eq_ok_iff_fault?.1 h
  rcases fault?_eq_none_iff.1 hfault with rfl | hsound
  · exact .empty
  · have hparts : List.Forall₂ IsPart (text.toList.splitOn '.')
        ((text.toList.splitOn '.').map fun part => Piece.segments (Piece.ofPart part)) := by
      rw [List.forall₂_map_right_iff, List.forall₂_same]
      intro part hpart
      exact Piece.isPart_of_sound (Text.not_mem_of_mem_splitOn hpart) (hsound part hpart)
    have hne : text.toList.splitOn '.' ≠ [] := List.splitOn_ne_nil _ _
    have htext := IsPathText.parts hne hparts
    rw [List.intercalate_splitOn, ← List.flatMap_def, ← Piece.segments_ofText] at htext
    exact htext

/-- The strict reader accepts every text of the grammar and reads its path. -/
theorem ofText?_of_isPathText {text : String} {p : Path} (h : IsPathText text.toList p) :
    ofText? text = .ok p := by
  generalize hcs : text.toList = cs at h
  cases h with
  | empty =>
    rw [String.toList_eq_nil_iff.1 hcs]
    rfl
  | @parts parts ps hne hparts =>
    obtain ⟨hdots, hsounds, hsegments⟩ := sound_of_forall₂_isPart hparts
    have hcut : text.toList.splitOn '.' = parts := by
      rw [hcs]
      exact List.splitOn_intercalate '.' hdots hne
    refine ofText?_eq_ok_iff_fault?.2 ⟨fault?_eq_none_iff.2 (.inr ?_), ?_⟩
    · rw [hcut]
      exact hsounds
    · rw [ofText_eq, Piece.segments_ofText, hcut, hsegments]

/-- **The strict reader accepts exactly the grammar.**  A text is read as a path if and only if the
grammar gives it that path, and every text to which the grammar gives none is refused as a text
that breaks it. -/
theorem ofText?_eq_ok_iff_isPathText (text : String) :
    (∀ p, ofText? text = .ok p ↔ IsPathText text.toList p) ∧
      ((∃ fault, (PathSource.read .strict text).address? = .error (.path text fault)) ↔
        ∀ p, ¬ IsPathText text.toList p) := by
  have hiff (p : Path) : ofText? text = .ok p ↔ IsPathText text.toList p :=
    ⟨isPathText_of_ofText?, ofText?_of_isPathText⟩
  refine ⟨hiff, ?_⟩
  simp only [← hiff, PathSource.address?, Path.read]
  cases ofText? text with
  | ok p => simp
  | error fault => simp

end Path

end DocPath
