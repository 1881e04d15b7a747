import DocPath.Text.Basic
import DocPath.Text.Cut

/-!
# Slices of a text, by bytes

A slice of a text is what stands between two of its bytes.  At both a character has to begin or the
text to end, and the second must not stand before the first; otherwise there is no slice
(`isSome_slice?_iff`).  `slice?` takes a slice, and `find?` tells how many bytes precede a
character.
-/

namespace DocPath.Text

/-! ## 1. Halves -/

/-- The first `bytes` bytes of the text and what follows them, if no character stands across. -/
def halves? (bytes : Nat) : List Char → Option (List Char × List Char)
  | [] => if bytes = 0 then some ([], []) else none
  | c :: cs =>
    if bytes = 0 then some ([], c :: cs)
    else if c.utf8Size ≤ bytes then
      (halves? (bytes - c.utf8Size) cs).map fun halves => (c :: halves.1, halves.2)
    else none

theorem halves?_append (before after : List Char) :
    halves? (byteCount before) (before ++ after) = some (before, after) := by
  induction before with
  | nil => cases after <;> rfl
  | cons c before ih =>
    have hpos : c.utf8Size + byteCount before ≠ 0 := by
      have := c.utf8Size_pos
      omega
    rw [List.cons_append, halves?, byteCount_cons, if_neg hpos, if_pos (Nat.le_add_right _ _),
      Nat.add_sub_cancel_left, ih]
    rfl

/-- The halves make up the text, and the first one takes the bytes asked for. -/
theorem halves?_eq_some_iff {bytes : Nat} {cs before after : List Char} :
    halves? bytes cs = some (before, after) ↔ cs = before ++ after ∧ byteCount before = bytes := by
  constructor
  · intro h
    induction cs generalizing bytes before with
    | nil =>
      rw [halves?] at h
      split at h
      · next hbytes =>
        cases h
        exact ⟨rfl, hbytes.symm⟩
      · cases h
    | cons c cs ih =>
      rw [halves?] at h
      split at h
      · next hbytes =>
        cases h
        exact ⟨rfl, hbytes.symm⟩
      · split at h
        · next hfits =>
          obtain ⟨⟨before', after'⟩, hrest, hhalves⟩ := Option.map_eq_some_iff.1 h
          cases hhalves
          obtain ⟨rfl, hbytes⟩ := ih hrest
          refine ⟨rfl, ?_⟩
          rw [byteCount_cons, hbytes, Nat.add_sub_cancel' hfits]
        · cases h
  · rintro ⟨rfl, rfl⟩
    exact halves?_append before after

/-! ## 2. Slices -/

/-- A stretch of a text: the bytes before it, the bytes up to its end, and its characters. -/
structure Slice where
  start : Nat
  stop : Nat
  chars : List Char
deriving DecidableEq, Repr

/-- The slice of the text from one byte to another. -/
def slice? (cs : List Char) (start stop : Nat) : Option Slice :=
  (halves? stop cs).bind fun upTo =>
    (halves? start upTo.1).map fun within => ⟨start, stop, within.2⟩

/-- The slice is a stretch of the text, with so many bytes before it and up to its end. -/
def Slice.IsIn (slice : Slice) (cs : List Char) : Prop :=
  ∃ before after, cs = before ++ slice.chars ++ after ∧ byteCount before = slice.start ∧
    byteCount (before ++ slice.chars) = slice.stop

theorem slice?_eq_some_iff {cs : List Char} {start stop : Nat} {slice : Slice} :
    slice? cs start stop = some slice ↔
      slice.IsIn cs ∧ slice.start = start ∧ slice.stop = stop := by
  constructor
  · intro h
    obtain ⟨⟨upTo, after⟩, hupTo, h⟩ := Option.bind_eq_some_iff.1 h
    obtain ⟨⟨before, within⟩, hwithin, rfl⟩ := Option.map_eq_some_iff.1 h
    obtain ⟨rfl, hstop⟩ := halves?_eq_some_iff.1 hupTo
    obtain ⟨rfl, hstart⟩ := halves?_eq_some_iff.1 hwithin
    exact ⟨⟨before, after, rfl, hstart, hstop⟩, rfl, rfl⟩
  · rintro ⟨⟨before, after, rfl, hstart, hstop⟩, rfl, rfl⟩
    have hwithin := halves?_append before slice.chars
    rw [slice?, ← hstop, halves?_append, Option.bind_some, ← hstart, hwithin, Option.map_some,
      hstart, hstop]

/-- A stretch of a text is the slice from the bytes before it to the bytes up to its end. -/
theorem slice?_of_eq {cs before chars after : List Char} {start stop : Nat}
    (hcs : cs = before ++ chars ++ after) (hstart : byteCount before = start)
    (hstop : start + byteCount chars = stop) :
    slice? cs start stop = some ⟨start, stop, chars⟩ := by
  refine slice?_eq_some_iff.2 ⟨⟨before, after, hcs, hstart, ?_⟩, rfl, rfl⟩
  rw [byteCount_append, hstart, hstop]

/-- What core takes for the position of a character is the end of a first half. -/
theorem isValid_iff {s : String} {bytes : Nat} :
    String.Pos.Raw.IsValid s ⟨bytes⟩ ↔
      ∃ before after, s.toList = before ++ after ∧ byteCount before = bytes := by
  rw [String.Pos.Raw.isValid_iff_exists_append]
  constructor
  · rintro ⟨before, after, rfl, hbytes⟩
    refine ⟨before.toList, after.toList, String.toList_append, ?_⟩
    rw [byteCount_toList]
    exact (congrArg String.Pos.Raw.byteIdx hbytes).symm
  · rintro ⟨before, after, hs, rfl⟩
    refine ⟨String.ofList before, String.ofList after, ?_, ?_⟩
    · rw [← String.ofList_append, ← hs, String.ofList_toList]
    · have hbytes := byteCount_toList (String.ofList before)
      rw [String.toList_ofList] at hbytes
      rw [hbytes]
      rfl

/-- There is a slice from one byte to another exactly if the first is not behind the second, both
are bytes of the text, and no character stands across either of them. -/
theorem isSome_slice?_iff {s : String} {start stop : Nat} :
    (slice? s.toList start stop).isSome ↔
      start ≤ stop ∧ stop ≤ s.utf8ByteSize ∧ String.Pos.Raw.IsValid s ⟨start⟩ ∧
        String.Pos.Raw.IsValid s ⟨stop⟩ := by
  rw [Option.isSome_iff_exists, isValid_iff, isValid_iff]
  constructor
  · rintro ⟨slice, h⟩
    obtain ⟨⟨before, after, hs, hstart, hstop⟩, rfl, rfl⟩ := slice?_eq_some_iff.1 h
    have hbytes : byteCount s.toList = slice.stop + byteCount after := by
      rw [hs, byteCount_append, hstop]
    rw [byteCount_append] at hstop
    rw [byteCount_toList] at hbytes
    refine ⟨by omega, by omega, ?_, ?_⟩
    · exact ⟨before, slice.chars ++ after, by rw [hs, List.append_assoc], hstart⟩
    · exact ⟨before ++ slice.chars, after, hs, by rw [byteCount_append, hstop]⟩
  · rintro ⟨hle, -, ⟨before, rest, hs, rfl⟩, ⟨upTo, after, hs', rfl⟩⟩
    obtain ⟨chars, rfl⟩ : before <+: upTo := by
      rcases List.append_eq_append_iff.1 (hs.symm.trans hs') with
        ⟨chars, hupTo, -⟩ | ⟨chars, hbefore, -⟩
      · exact ⟨chars, hupTo.symm⟩
      · rw [hbefore, byteCount_append] at hle
        have hnone : chars = [] := byteCount_eq_zero_iff.1 (by omega)
        rw [hnone, List.append_nil] at hbefore
        exact ⟨[], (List.append_nil before).trans hbefore⟩
    let slice : Slice := ⟨byteCount before, byteCount (before ++ chars), chars⟩
    exact ⟨slice, slice?_eq_some_iff.2 ⟨⟨before, after, hs', rfl, rfl⟩, rfl, rfl⟩⟩

/-! ## 3. Finding a character -/

/-- The number of bytes before the first `c`. -/
def find? (c : Char) (cs : List Char) : Option Nat :=
  (cut? c cs).map fun halves => byteCount halves.1

theorem find?_of_not_mem {c : Char} {cs : List Char} (h : c ∉ cs) : find? c cs = none := by
  rw [find?, cut?_eq_none_iff.2 h]
  rfl

theorem find?_append {c : Char} {before : List Char} (h : c ∉ before) (after : List Char) :
    find? c (before ++ c :: after) = some (byteCount before) := by
  rw [find?, cut?_eq_some_iff.2 ⟨rfl, h⟩]
  rfl

end DocPath.Text
