import DocPath.Json.Basic
import DocPath.Json.Problem

/-!
# Numerals in JSON texts

A numeral is read in two steps.  `Numeral.read` takes its characters apart: a sign, the digits
before the point, the digits behind it, and the digits of an exponent.  `Numeral.value` works out
the number.

The value is found by floating point arithmetic, and so it is not always the number nearest to the
numeral.  The digits are gathered into a significand as long as it fits 64 bits, the significand is
rounded, and the result is multiplied or divided by a rounded power of ten.  A digit that no longer
fits is dropped together with those after it; each dropped digit before the point counts as a
factor of ten.  The digits behind the point are tried anew, even if digits before it were dropped.
-/

namespace DocPath.Json

/-- The exponent of a numeral: its sign and its digits. -/
structure Exponent where
  negative : Bool
  digits : List Char
deriving DecidableEq, Repr

/-- The parts of a number as it is written. -/
structure Numeral where
  negative : Bool
  /-- The digits before the point. -/
  whole : List Char
  /-- The digits behind the point; none if there is no point. -/
  fraction : List Char
  exponent? : Option Exponent
deriving DecidableEq, Repr

namespace Numeral

/-! ## 1. Taking the characters apart -/

/-- Reads one or more digits. -/
def readDigits (cs : List Char) : Except Stop (List Char × List Char) :=
  if cs.takeWhile Char.isDigit = [] then
    .error (.within (if cs = [] then .endInValue else .badNumber) cs)
  else .ok (cs.takeWhile Char.isDigit, cs.dropWhile Char.isDigit)

/-- Reads the digits before the point: a zero stands alone. -/
def readWhole (cs : List Char) : Except Stop (List Char × List Char) :=
  match readDigits cs with
  | .error stop => .error stop
  | .ok (digits, rest) =>
    if digits.head? = some '0' ∧ digits ≠ ['0'] then .error (.within .badNumber (cs.drop 1))
    else .ok (digits, rest)

/-- Reads a point and the digits behind it, if there is a point. -/
def readFraction : List Char → Except Stop (List Char × List Char)
  | [] => .ok ([], [])
  | c :: cs => if c = '.' then readDigits cs else .ok ([], c :: cs)

/-- Whether a sign is a minus, and what comes after the sign; a missing sign is a plus. -/
def readSign : List Char → Bool × List Char
  | [] => (false, [])
  | c :: cs => if c = '-' then (true, cs) else if c = '+' then (false, cs) else (false, c :: cs)

/-- Reads the exponent, if there is one. -/
def readExponent : List Char → Except Stop (Option Exponent × List Char)
  | [] => .ok (none, [])
  | c :: cs =>
    if c = 'e' ∨ c = 'E' then
      match readDigits (readSign cs).2 with
      | .error stop => .error stop
      | .ok (digits, rest) => .ok (some ⟨(readSign cs).1, digits⟩, rest)
    else .ok (none, c :: cs)

/-- Reads a numeral without its sign. -/
def readUnsigned (negative : Bool) (cs : List Char) : Except Stop (Numeral × List Char) :=
  match readWhole cs with
  | .error stop => .error stop
  | .ok (whole, rest) =>
    match readFraction rest with
    | .error stop => .error stop
    | .ok (fraction, rest) =>
      match readExponent rest with
      | .error stop => .error stop
      | .ok (exponent?, rest) => .ok (⟨negative, whole, fraction, exponent?⟩, rest)

/-- Reads a numeral. -/
def read : List Char → Except Stop (Numeral × List Char)
  | [] => readUnsigned false []
  | c :: cs => if c = '-' then readUnsigned true cs else readUnsigned false (c :: cs)

/-! ## 2. The significand -/

/-- The value of a digit. -/
def digitValue (c : Char) : Nat := c.toNat - '0'.toNat

/-- Appends digits to a significand while it fits 64 bits, and returns the digits that are left. -/
def gather (significand : Nat) : List Char → Nat × List Char
  | [] => (significand, [])
  | c :: cs =>
    let next := 10 * significand + digitValue c
    if next < Nat.pow 2 64 then gather next cs else (significand, c :: cs)

/-- The significand of the whole digits and the digits among them that are dropped. -/
def wholePart (n : Numeral) : Nat × List Char := gather 0 n.whole

/-- The significand of all digits and the digits behind the point that are dropped. -/
def fractionPart (n : Numeral) : Nat × List Char := gather n.wholePart.1 n.fraction

/-- The significand: all digits that fit. -/
def significand (n : Numeral) : Nat := n.fractionPart.1

/-- The power of ten that the places of the gathered and the dropped digits amount to. -/
def places (n : Numeral) : Int :=
  (n.wholePart.2.length : Int) - ((n.fraction.length : Int) - n.fractionPart.2.length)

/-! ## 3. The exponent -/

/-- The value of exponent digits after those that make `e`, if it fits 31 bits; otherwise the
digits behind the one that is too many. -/
def exponentValue (e : Nat) : List Char → Except (List Char) Nat
  | [] => .ok e
  | c :: cs =>
    let next := 10 * e + digitValue c
    if next < Nat.pow 2 31 then exponentValue next cs else .error cs

/-! ## 4. The number -/

/-- Divides a magnitude by a power of ten, in steps of `10 ^ 308`. -/
def divPow10 (u k : Nat) : Nat :=
  if k ≤ 308 then divUnits u (unitsOfPow10 k)
  else if u = 0 then 0
  else divPow10 (divUnits u (unitsOfPow10 308)) (k - 308)
termination_by k

/-- A magnitude times a power of ten, unless it is too large. -/
def scale? (u : Nat) (e : Int) : Option Nat :=
  if e < 0 then some (divPow10 u e.natAbs)
  else if e.natAbs ≤ 308 then some (mulUnits u (unitsOfPow10 e.natAbs))
  else if u = 0 then some 0
  else none

/-- The finite number of a sign and a magnitude, unless the magnitude is too large. -/
def finite? (negative : Bool) (u : Nat) : Option Finite :=
  if h : Representable u then some ⟨negative, u, h⟩ else none

/-- The number with a fraction or an exponent: a rounded significand times a power of ten. -/
def real? (n : Numeral) (e : Int) : Option Number :=
  ((scale? (unitsOfNat n.significand) e).bind (finite? n.negative)).map .real

/-- The number that whole digits alone denote, if none is dropped: an integer, but for the negative
zero and for what is below the 64-bit integers. -/
def integral? (n : Numeral) : Option Number :=
  if n.negative then
    if 0 < n.significand ∧ n.significand ≤ Nat.pow 2 63 then
      some (.integer (-(n.significand : Int)))
    else n.real? 0
  else some (.integer n.significand)

/-- The number that a numeral denotes.  If it is too large, the error holds the exponent digits that
need not be read to know it. -/
def value (n : Numeral) : Except (List Char) Number :=
  match n.exponent? with
  | none =>
    let found := if n.fraction = [] ∧ n.wholePart.2 = [] then n.integral? else n.real? n.places
    found.elim (.error []) .ok
  | some exponent =>
    match exponentValue 0 exponent.digits with
    | .ok e =>
      (n.real? (n.places + if exponent.negative then -(e : Int) else e)).elim (.error []) .ok
    | .error unread =>
      if n.significand ≠ 0 ∧ ¬ exponent.negative then .error unread
      else ((finite? n.negative 0).map Number.real).elim (.error []) .ok

/-- Reads a number. -/
def readValue (cs : List Char) : Except Stop (Number × List Char) :=
  match read cs with
  | .error stop => .error stop
  | .ok (n, rest) =>
    match n.value with
    | .ok x => .ok (x, rest)
    | .error unread => .error (.before .numberTooLarge (unread ++ rest))

/-! ## 5. Numerals consume what they read -/

theorem length_readDigits {cs ds rest : List Char} (h : readDigits cs = .ok (ds, rest)) :
    rest.length < cs.length := by
  unfold readDigits at h
  split at h
  · exact nomatch h
  · next hne =>
    have hrest := (Prod.mk.inj (Except.ok.inj h)).2
    have hlen := congrArg List.length
      (List.takeWhile_append_dropWhile (p := Char.isDigit) (l := cs))
    have hpos := List.length_pos_iff.2 hne
    rw [List.length_append, hrest] at hlen
    omega

theorem length_readWhole {cs ds rest : List Char} (h : readWhole cs = .ok (ds, rest)) :
    rest.length < cs.length := by
  unfold readWhole at h
  split at h
  · exact nomatch h
  · next hd =>
    split at h
    · exact nomatch h
    · exact (Prod.mk.inj (Except.ok.inj h)).2 ▸ length_readDigits hd

theorem length_readFraction {cs ds rest : List Char} (h : readFraction cs = .ok (ds, rest)) :
    rest.length ≤ cs.length := by
  cases cs with
  | nil => exact (Prod.mk.inj (Except.ok.inj h)).2 ▸ Nat.le_refl _
  | cons c cs =>
    rw [readFraction] at h
    split at h
    · exact Nat.le_of_lt (Nat.lt_trans (length_readDigits h) (Nat.lt_succ_self _))
    · exact (Prod.mk.inj (Except.ok.inj h)).2 ▸ Nat.le_refl _

theorem length_readSign (cs : List Char) : (readSign cs).2.length ≤ cs.length := by
  cases cs with
  | nil => exact Nat.le_refl _
  | cons c cs =>
    rw [readSign]
    split
    · exact Nat.le_succ _
    · split
      · exact Nat.le_succ _
      · exact Nat.le_refl _

theorem length_readExponent {cs rest : List Char} {e : Option Exponent}
    (h : readExponent cs = .ok (e, rest)) : rest.length ≤ cs.length := by
  cases cs with
  | nil => exact (Prod.mk.inj (Except.ok.inj h)).2 ▸ Nat.le_refl _
  | cons c cs =>
    rw [readExponent] at h
    split at h
    · cases hd : readDigits (readSign cs).2 with
      | error stop =>
        rw [hd] at h
        cases h
      | ok read =>
        rw [hd] at h
        exact (Prod.mk.inj (Except.ok.inj h)).2 ▸
          Nat.le_trans (Nat.le_of_lt (length_readDigits hd))
            (Nat.le_succ_of_le (length_readSign cs))
    · exact (Prod.mk.inj (Except.ok.inj h)).2 ▸ Nat.le_refl _

theorem length_readUnsigned {negative : Bool} {cs rest : List Char} {n : Numeral}
    (h : readUnsigned negative cs = .ok (n, rest)) : rest.length < cs.length := by
  unfold readUnsigned at h
  split at h
  · exact nomatch h
  · next hw =>
    split at h
    · exact nomatch h
    · next hf =>
      split at h
      · exact nomatch h
      · next he =>
        exact (Prod.mk.inj (Except.ok.inj h)).2 ▸
          Nat.lt_of_le_of_lt (Nat.le_trans (length_readExponent he) (length_readFraction hf))
            (length_readWhole hw)

theorem length_read {cs rest : List Char} {n : Numeral} (h : read cs = .ok (n, rest)) :
    rest.length < cs.length := by
  cases cs with
  | nil => exact @length_readUnsigned false [] rest n h
  | cons c cs =>
    rw [read] at h
    split at h
    · exact Nat.lt_trans (length_readUnsigned h) (Nat.lt_succ_self _)
    · exact length_readUnsigned h

theorem length_readValue {cs rest : List Char} {x : Number} (h : readValue cs = .ok (x, rest)) :
    rest.length < cs.length := by
  unfold readValue at h
  split at h
  · exact nomatch h
  · next hn =>
    split at h
    · exact (Prod.mk.inj (Except.ok.inj h)).2 ▸ length_read hn
    · exact nomatch h

end Numeral

end DocPath.Json
