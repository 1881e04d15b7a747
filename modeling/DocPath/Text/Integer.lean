/-!
# Decimal integers

The two written forms of an integer.  Reading takes one optional sign and at least one digit, and
leading zeros do not matter; writing puts a `-` before the digits of a negative number and nothing
before the others.  `readInt64?` is reading within the range of the 64-bit signed integers.
-/

namespace DocPath.Text

/-- Reads one or more decimal digits. -/
def readNat? (cs : List Char) : Option Nat :=
  if cs ≠ [] ∧ cs.all Char.isDigit then some (Nat.ofDigitChars 10 cs 0) else none

/-- Reads an optional sign and one or more decimal digits. -/
def readInt? : List Char → Option Int
  | '-' :: digits => (readNat? digits).map fun n => -(n : Int)
  | '+' :: digits => (readNat? digits).map fun n => (n : Int)
  | digits => (readNat? digits).map fun n => (n : Int)

/-- Reads an integer that 64 bits can hold. -/
def readInt64? (cs : List Char) : Option Int64 :=
  (readInt? cs).bind fun n =>
    if Int64.minValue.toInt ≤ n ∧ n ≤ Int64.maxValue.toInt then some (Int64.ofInt n) else none

/-- The decimal digits of a natural number, without leading zeros. -/
def natDigits (n : Nat) : List Char := Nat.toDigits 10 n

/-- The digits of an integer after a `-` if it is negative. -/
def intDigits : Int → List Char
  | .ofNat n => natDigits n
  | .negSucc n => '-' :: natDigits (n + 1)

/-! ## Reading undoes writing -/

theorem readNat?_natDigits (n : Nat) : readNat? (natDigits n) = some n := by
  have digits : (natDigits n).all Char.isDigit = true :=
    List.all_eq_true.2 fun _ h => Nat.isDigit_of_mem_toDigits (by decide) (by decide) h
  rw [readNat?, if_pos ⟨Nat.toDigits_ne_nil, digits⟩, natDigits, Nat.ofDigitChars_ten_toDigits]

/-- A text that begins with no sign is read as its digits. -/
theorem readInt?_of_isDigit {c : Char} (cs : List Char) (h : c.isDigit = true) :
    readInt? (c :: cs) = (readNat? (c :: cs)).map fun n => (n : Int) := by
  unfold readInt?
  split
  · next heq =>
    cases (List.cons.inj heq).1
    exact absurd h (by decide)
  · next heq =>
    cases (List.cons.inj heq).1
    exact absurd h (by decide)
  · rfl

theorem readInt?_natDigits (n : Nat) : readInt? (natDigits n) = some (n : Int) := by
  cases hd : natDigits n with
  | nil => exact absurd hd Nat.toDigits_ne_nil
  | cons c cs =>
    have digit : c.isDigit = true :=
      Nat.isDigit_of_mem_toDigits (by decide) (by decide) (hd ▸ List.mem_cons_self)
    rw [readInt?_of_isDigit cs digit, ← hd, readNat?_natDigits]
    rfl

theorem readInt?_intDigits (n : Int) : readInt? (intDigits n) = some n := by
  cases n with
  | ofNat n => exact readInt?_natDigits n
  | negSucc n =>
    rw [intDigits, readInt?, readNat?_natDigits]
    rfl

theorem readInt64?_intDigits (i : Int64) : readInt64? (intDigits i.toInt) = some i := by
  rw [readInt64?, readInt?_intDigits]
  have range : Int64.minValue.toInt ≤ i.toInt ∧ i.toInt ≤ Int64.maxValue.toInt :=
    ⟨i.minValue_le_toInt, i.toInt_le⟩
  rw [Option.bind_some, if_pos range, Int64.ofInt_toInt]

end DocPath.Text
