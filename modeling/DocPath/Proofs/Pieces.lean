import DocPath.Path.Read

/-!
# Pieces, part by part

Both readers of path texts work piece by piece, while the grammar of path texts goes by parts and
groups.  This module leads from the one to the other: the segments of a text are those of its
parts in order (`segments_ofText`), the strict reader accepts a text if all pieces of all parts
are sound (`fault?_eq_none_iff`), and within a part the key ends at the first `[`
(`ofPart_of_not_mem`, `ofPart_append`), a group at the first `]` (`groups_append`), and the last
piece of a part may be a `[` that none closes or text behind the groups.
-/

namespace DocPath

namespace Piece

/-! ## 1. Sound pieces and their segments -/

/-- None of the pieces breaks the grammar. -/
def Sound (ps : List Piece) : Prop := ∀ p ∈ ps, p.flaw? = none

/-- The segments that the pieces stand for. -/
def segments (ps : List Piece) : Path := ps.filterMap segment?

@[simp] theorem sound_nil : Sound [] := fun _ h => nomatch h

@[simp] theorem sound_cons {p : Piece} {ps : List Piece} :
    Sound (p :: ps) ↔ p.flaw? = none ∧ Sound ps := List.forall_mem_cons

@[simp] theorem sound_append {ps qs : List Piece} :
    Sound (ps ++ qs) ↔ Sound ps ∧ Sound qs := List.forall_mem_append

@[simp] theorem segments_nil : segments [] = [] := rfl

theorem segments_cons (p : Piece) (ps : List Piece) :
    segments (p :: ps) = p.segment?.toList ++ segments ps := by
  cases h : p.segment? <;> simp [segments, h]

@[simp] theorem segments_append (ps qs : List Piece) :
    segments (ps ++ qs) = segments ps ++ segments qs := List.filterMap_append

/-- A group is sound exactly if its content means a segment. -/
theorem flaw?_group_eq_none_iff {content : List Char} :
    (group content).flaw? = none ↔ (Segment.ofGroup? content).isSome := by
  rw [flaw?]
  split
  · next h => simp [h]
  · next h => simp [h]

/-! ## 2. Groups -/

/-- A group ends at the first `]`. -/
theorem groups_append {content : List Char} (h : ']' ∉ content) (rest : List Char) :
    groups ('[' :: (content ++ ']' :: rest)) = group content :: groups rest := by
  have hcut : Text.cut? ']' (content ++ ']' :: rest) = some (content, rest) :=
    Text.cut?_eq_some_iff.2 ⟨rfl, h⟩
  rw [groups, if_pos rfl]
  split
  · next hnone => cases hcut.symm.trans hnone
  · next c r hsome =>
    cases hcut.symm.trans hsome
    rfl

/-- A `[` that no `]` closes takes the rest of the part. -/
theorem groups_unclosed {cs : List Char} (h : ']' ∉ cs) : groups ('[' :: cs) = [unclosed cs] := by
  rw [groups, if_pos rfl]
  split
  · rfl
  · next content after hcut =>
    rw [Text.cut?_eq_none_iff.2 h] at hcut
    cases hcut

/-- Text without `[` behind a group is the last piece of its part. -/
theorem groups_trailing {c : Char} {cs : List Char} (hc : c ≠ '[') (h : '[' ∉ cs) :
    groups (c :: cs) = [trailing (c :: cs)] := by
  rw [groups, if_neg hc]
  split
  · rfl
  · next before after hcut =>
    rw [Text.cut?_eq_none_iff.2 h] at hcut
    cases hcut

/-- Text before a `[` is a piece of its own. -/
theorem groups_stray {c : Char} {cs : List Char} (hc : c ≠ '[') (h : '[' ∉ cs) (rest : List Char) :
    groups (c :: (cs ++ '[' :: rest)) = stray (c :: cs) :: groups ('[' :: rest) := by
  have hcut : Text.cut? '[' (cs ++ '[' :: rest) = some (cs, rest) :=
    Text.cut?_eq_some_iff.2 ⟨rfl, h⟩
  rw [groups, if_neg hc]
  split
  · next hnone => cases hcut.symm.trans hnone
  · next before after hsome =>
    cases hcut.symm.trans hsome
    rfl

/-! ## 3. Parts -/

/-- A part without `[` is a key. -/
theorem ofPart_of_not_mem {part : List Char} (hne : part ≠ []) (h : '[' ∉ part) :
    ofPart part = [key part] := by
  rw [ofPart, Text.cut?_eq_none_iff.2 h]
  exact if_neg hne

/-- The key of a part ends at the first `[`. -/
theorem ofPart_append {name : List Char} (h : '[' ∉ name) (rest : List Char) :
    ofPart (name ++ '[' :: rest) =
      (if name = [] then [] else [key name]) ++ groups ('[' :: rest) := by
  rw [ofPart, Text.cut?_eq_some_iff.2 ⟨rfl, h⟩]

/-- A part without text is its own flaw. -/
theorem ofPart_nil : ofPart [] = [vacant] := rfl

/-- What a part can look like: nothing, a key, or a key that may be missing before a `[`. -/
theorem ofPart_cases (part : List Char) :
    part = [] ∨ (part ≠ [] ∧ '[' ∉ part) ∨
      ∃ name rest, part = name ++ '[' :: rest ∧ '[' ∉ name := by
  cases hcut : Text.cut? '[' part with
  | none =>
    cases part with
    | nil => exact .inl rfl
    | cons c cs => exact .inr (.inl ⟨List.cons_ne_nil c cs, Text.cut?_eq_none_iff.1 hcut⟩)
  | some halves =>
    obtain ⟨name, rest⟩ := halves
    obtain ⟨hpart, hname⟩ := Text.cut?_eq_some_iff.1 hcut
    exact .inr (.inr ⟨name, rest, hpart, hname⟩)

/-! ## 4. Texts -/

/-- What is kept of the pieces of a text is kept of those of its parts, in order, if the dots
between them are not kept. -/
theorem filterMap_ofText {α : Type} {f : Piece → Option α} (hf : f dot = none)
    (text : List Char) :
    (ofText text).filterMap f =
      (text.splitOn '.').flatMap fun part => (ofPart part).filterMap f := by
  induction text using Text.induct_join (c := '.') with
  | single part hdot =>
    rw [ofText_of_not_mem hdot, List.splitOn_eq_singleton hdot, List.flatMap_singleton]
  | join part rest hdot ih =>
    rw [ofText_part_join hdot, Text.splitOn_join hdot, List.filterMap_append,
      List.filterMap_cons_none hf, ih, List.flatMap_cons]

/-- The dots between parts are sound, so a text is sound if its parts are. -/
theorem sound_ofText {text : List Char} :
    Sound (ofText text) ↔ ∀ part ∈ text.splitOn '.', Sound (ofPart part) := by
  have hsound (ps : List Piece) : Sound ps ↔ ps.filterMap flaw? = [] :=
    List.filterMap_eq_nil_iff.symm
  have hdot : flaw? dot = none := rfl
  simp only [hsound, filterMap_ofText hdot, List.flatMap_eq_nil_iff]

/-- The segments of a text are the segments of its parts, in order. -/
theorem segments_ofText (text : List Char) :
    segments (ofText text) = (text.splitOn '.').flatMap fun part => segments (ofPart part) :=
  filterMap_ofText rfl text

/-- A search for faults finds nothing exactly if all pieces are sound, wherever they lie. -/
theorem findSome?_locate_eq_none_iff {ps : List Piece} {before : Nat} :
    (locate before ps).findSome? PathFault.ofPiece? = none ↔ Sound ps := by
  induction ps generalizing before with
  | nil => simp [locate]
  | cons p ps ih =>
    have here : PathFault.ofPiece? (before, p) =
        p.flaw?.map fun flaw => ⟨before + flaw.lead, flaw⟩ := rfl
    rw [locate, List.findSome?_cons, here, sound_cons]
    cases p.flaw? with
    | none => simp only [Option.map_none, true_and, ih]
    | some flaw => simp only [Option.map_some, reduceCtorEq, false_and]

end Piece

namespace Path

/-! ## 5. The two readers -/

/-- The lenient reader keeps the segments of all pieces. -/
theorem ofText_eq (text : String) : ofText text = Piece.segments (Piece.ofText text.toList) := rfl

/-- The strict reader finds no fault exactly if there is no text or every part is sound. -/
theorem fault?_eq_none_iff {text : String} :
    fault? text = none ↔
      text = "" ∨ ∀ part ∈ text.toList.splitOn '.', Piece.Sound (Piece.ofPart part) := by
  unfold fault?
  split
  · next h => simp [h]
  · next h =>
    rw [Piece.findSome?_locate_eq_none_iff, Piece.sound_ofText, or_iff_right h]

/-- The strict reader accepts a text exactly if it finds no fault, and then reads what the lenient
one reads. -/
theorem ofText?_eq_ok_iff_fault? {text : String} {p : Path} :
    ofText? text = .ok p ↔ fault? text = none ∧ ofText text = p := by
  unfold ofText?
  cases hf : fault? text with
  | none => simp
  | some fault => simp

end Path

end DocPath
