import DocPath.Json.Quoted

/-!
# Strings survive their quotes

`Quoted.read` gives back every string that `Quoted.write` has written, character by character, and
leaves the text behind the closing quote alone (`read_flatMap_escaped`).  Written characters are of
three kinds: those that stand for themselves, those behind a backslash, and the control characters
that have no letter of their own and are written by number (`readRest_escaped`).
-/

namespace DocPath.Json.Quoted

/-! ## 1. One character -/

/-- An escape is read as the character that it means. -/
theorem readRest_escape {cs rest : List Char} {c : Char} (h : readEscape cs = .ok (c, rest))
    (done : List Char) : readRest done ('\\' :: cs) = readRest (c :: done) rest := by
  rw [readRest, if_neg (by decide), if_pos rfl]
  split
  · next hstop => cases hstop.symm.trans h
  · next hok =>
    cases hok.symm.trans h
    rfl

/-- A character that needs no escape is read as itself. -/
theorem readRest_self {c : Char} (hquote : c ≠ '"') (hback : c ≠ '\\') (hcontrol : 0x20 ≤ c.toNat)
    (done cs : List Char) : readRest done (c :: cs) = readRest (c :: done) cs := by
  rw [readRest, if_neg hquote, if_neg hback, if_neg (Nat.not_lt.2 hcontrol)]

theorem hex4?_hexDigit :
    ∀ n < 0x20, hex4? '0' '0' (hexDigit (n / 16)) (hexDigit (n % 16)) = some n := by
  decide

/-- The number of a control character is read as the character. -/
theorem readEscape_control {c : Char} (h : c.toNat < 0x20) (rest : List Char) :
    readEscape ('u' :: '0' :: '0' :: hexDigit (c.toNat / 16) :: hexDigit (c.toNat % 16) :: rest) =
      .ok (c, rest) := by
  have hread : readHex ('0' :: '0' :: hexDigit (c.toNat / 16) :: hexDigit (c.toNat % 16) :: rest) =
      .ok (c.toNat, rest) := by
    rw [readHex, hex4?_hexDigit _ h]
  have hlow : ¬ IsLow c.toNat := by
    rintro ⟨hle, -⟩
    omega
  have hhigh : ¬ IsHigh c.toNat := by
    rintro ⟨hle, -⟩
    omega
  have hplain : plainEscape? 'u' = none := by decide
  simp only [readEscape, hplain, if_pos, readUnicode, hread, if_neg hlow, if_neg hhigh,
    Char.ofNat_toNat]

/-- Whatever a character is written as is read as that character. -/
theorem readRest_escaped (c : Char) (done cs : List Char) :
    readRest done (escaped c ++ cs) = readRest (c :: done) cs := by
  unfold escaped
  split
  · next h => rw [h]; exact readRest_escape rfl done
  · next hquote =>
    split
    · next h => rw [h]; exact readRest_escape rfl done
    · next hback =>
      split
      · next h => exact readRest_self hquote hback h done cs
      · next hcontrol =>
        split
        · next h => rw [h]; exact readRest_escape rfl done
        split
        · next h => rw [h]; exact readRest_escape rfl done
        split
        · next h => rw [h]; exact readRest_escape rfl done
        split
        · next h => rw [h]; exact readRest_escape rfl done
        split
        · next h => rw [h]; exact readRest_escape rfl done
        · exact readRest_escape (readEscape_control (Nat.not_le.1 hcontrol) cs) done

/-! ## 2. The string -/

theorem readRest_flatMap_escaped (s done rest : List Char) :
    readRest done (s.flatMap escaped ++ '"' :: rest) = .ok (done.reverse ++ s, rest) := by
  induction s generalizing done with
  | nil =>
    rw [List.flatMap_nil, List.nil_append, readRest, if_pos rfl, List.append_nil]
  | cons c s ih =>
    rw [List.flatMap_cons, List.append_assoc, readRest_escaped, ih]
    simp

/-- **A string is read back as it was written.**  `rest` is any text behind the closing quote. -/
theorem read_flatMap_escaped (s rest : List Char) :
    read (s.flatMap escaped ++ '"' :: rest) = .ok (s, rest) := by
  rw [read, readRest_flatMap_escaped]
  rfl

end DocPath.Json.Quoted
