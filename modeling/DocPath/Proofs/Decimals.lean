import Mathlib.Algebra.Group.Nat.Defs
import DocPath.Proofs.Magnitudes
import DocPath.Proofs.Numerals

/-!
# Decimals as numerals

What is written for a decimal is the text of a numeral (`Decimal.numeral`, `text_numeral`).  The
numeral has the value of the decimal, though it may count a few zeros at the end among its digits
(`writes_numeral`).

The decimal that is written for a magnitude rounds to it (`units_shortest`).
-/

namespace DocPath

/-- The place of the first digit: the power of ten it counts. -/
def Decimal.first (d : Decimal) : Int := d.exponent + (Text.natDigits d.digits).length - 1

namespace Json

namespace Numeral

/-! ## 1. The value of a numeral -/

/-- The power of ten that the exponent is. -/
def power (n : Numeral) : Int :=
  match n.exponent? with
  | none => 0
  | some e =>
    if e.negative then -(Nat.ofDigitChars 10 e.digits 0 : Int) else Nat.ofDigitChars 10 e.digits 0

/-- The numeral has the value of the decimal, with at most 16 digits before the point and an
exponent that is no larger than it has to be.  There may be zeros at the end of its digits that the
decimal has in its exponent. -/
structure Writes (n : Numeral) (d : Decimal) : Prop where
  proper : n.Proper
  length_whole : n.whole.length ≤ 16
  value : ∃ zeros : Nat,
    Nat.ofDigitChars 10 (n.whole ++ n.fraction) 0 = d.digits * 10 ^ zeros ∧
      n.power - n.fraction.length + zeros = d.exponent
  power_le : n.power ≤ max 0 d.first

end Numeral

end Json

/-! ## 2. The numeral of a decimal -/

namespace Decimal

open Text (natDigits)
open Json

/-- The numeral that is written for a decimal and a sign. -/
def numeral (negative : Bool) (d : Decimal) : Numeral :=
  let digits := natDigits d.digits
  if leastPlain ≤ d.first ∧ d.first ≤ greatestPlain then
    if d.first < 0 then
      ⟨negative, ['0'], List.replicate (-d.first - 1).toNat '0' ++ digits, none⟩
    else
      let whole := d.first.toNat + 1
      if digits.length ≤ whole then
        ⟨negative, digits ++ List.replicate (whole - digits.length) '0', ['0'], none⟩
      else ⟨negative, digits.take whole, digits.drop whole, none⟩
  else
    ⟨negative, digits.take 1, digits.drop 1, some ⟨d.first < 0, natDigits d.first.natAbs⟩⟩

theorem text_of_fraction (negative : Bool) (whole : List Char) {fraction : List Char}
    (h : fraction ≠ []) (e? : Option Exponent) :
    Numeral.text ⟨negative, whole, fraction, e?⟩ =
      (if negative then ['-'] else []) ++
        (whole ++ '.' :: (fraction ++ Numeral.exponentText e?)) := by
  cases fraction with
  | nil => exact absurd rfl h
  | cons d ds => rfl

/-- What is written for a decimal is the text of its numeral. -/
theorem text_numeral (negative : Bool) (d : Decimal) :
    (d.numeral negative).text = (if negative then ['-'] else []) ++ d.chars := by
  have hne : natDigits d.digits ≠ [] := Nat.toDigits_ne_nil
  have hchars : d.chars = if leastPlain ≤ d.first ∧ d.first ≤ greatestPlain then
      plain (natDigits d.digits) d.first else scientific (natDigits d.digits) d.first := rfl
  rw [hchars, numeral, plain, scientific]
  by_cases hplain : leastPlain ≤ d.first ∧ d.first ≤ greatestPlain
  · by_cases hfirst : d.first < 0
    · simp [hplain, hfirst, text_of_fraction, hne, Numeral.exponentText]
    · by_cases hshort : (natDigits d.digits).length ≤ d.first.toNat + 1
      · simp [hplain, hfirst, hshort, text_of_fraction, Numeral.exponentText]
      · have hdrop : (natDigits d.digits).drop (d.first.toNat + 1) ≠ [] := by
          rw [Ne, List.drop_eq_nil_iff]
          exact hshort
        simp [hplain, hfirst, hshort, text_of_fraction _ _ hdrop, Numeral.exponentText]
  · by_cases hshort : (natDigits d.digits).length ≤ 1
    · have hdrop : (natDigits d.digits).drop 1 = [] := List.drop_eq_nil_iff.2 hshort
      simp [hplain, hshort, Numeral.text, hdrop, Numeral.fractionText, Numeral.exponentText]
    · have hdrop : (natDigits d.digits).drop 1 ≠ [] := by
        rw [Ne, List.drop_eq_nil_iff]
        exact hshort
      simp [hplain, hshort, text_of_fraction _ _ hdrop, Numeral.exponentText, -List.drop_one]

/-! ## 3. The numeral has the value of the decimal -/

variable {d : Decimal}

/-- The digits of a decimal that is not zero do not begin with a zero. -/
theorem head?_natDigits {n : Nat} (hn : 0 < n) : (natDigits n).head? ≠ some '0' := by
  intro h
  have hzero : n = 0 := Text.eq_of_natDigits (Text.natDigits_eq_of_head? h)
  omega

theorem writes_below_one (hfirst : d.first < 0) (negative : Bool) :
    Numeral.Writes ⟨negative, ['0'],
      List.replicate (-d.first - 1).toNat '0' ++ natDigits d.digits, none⟩ d where
  proper := by
    refine ⟨by simp, by simp, by simp, ?_, by simp⟩
    intro c hc
    rcases List.mem_append.1 hc with hc | hc
    · rw [List.eq_of_mem_replicate hc]
      rfl
    · exact Text.isDigit_of_mem_natDigits hc
  length_whole := by simp
  value := by
    refine ⟨0, ?_, ?_⟩
    · simp [Nat.ofDigitChars_append, Nat.ofDigitChars_cons, Nat.ofDigitChars_replicate_zero,
        natDigits]
    · simp only [Numeral.power, List.length_append, List.length_replicate]
      rw [first] at hfirst ⊢
      omega
  power_le := le_max_left _ _

theorem writes_integral (hd : 0 < d.digits) (hfirst : 0 ≤ d.first)
    (hplain : d.first ≤ greatestPlain) (hshort : (natDigits d.digits).length ≤ d.first.toNat + 1)
    (negative : Bool) :
    Numeral.Writes ⟨negative, natDigits d.digits ++
      List.replicate (d.first.toNat + 1 - (natDigits d.digits).length) '0', ['0'], none⟩ d where
  proper := by
    have hne : natDigits d.digits ≠ [] := Nat.toDigits_ne_nil
    refine ⟨by simp [hne], ?_, ?_, by simp, by simp⟩
    · intro c hc
      rcases List.mem_append.1 hc with hc | hc
      · exact Text.isDigit_of_mem_natDigits hc
      · rw [List.eq_of_mem_replicate hc]
        rfl
    · intro hzero
      rw [List.head?_append, Option.or_of_isSome (by simpa using hne)] at hzero
      exact absurd hzero (head?_natDigits hd)
  length_whole := by
    rw [greatestPlain] at hplain
    simp only [List.length_append, List.length_replicate]
    omega
  value := by
    refine ⟨d.first.toNat + 1 - (natDigits d.digits).length + 1, ?_, ?_⟩
    · simp [Nat.ofDigitChars_append, Nat.ofDigitChars_cons, Nat.ofDigitChars_replicate_zero,
        natDigits, pow_succ]
      ring
    · simp only [Numeral.power, List.length_singleton]
      rw [first] at *
      omega
  power_le := le_max_left _ _

/-- Digits that are cut in two, with the point or the exponent between them. -/
theorem proper_cut (hd : 0 < d.digits) {place : Nat} (hplace : 0 < place) (negative : Bool)
    {e? : Option Exponent} (he : ∀ e ∈ e?, e.digits ≠ [] ∧ ∀ c ∈ e.digits, c.isDigit = true) :
    Numeral.Proper
      ⟨negative, (natDigits d.digits).take place, (natDigits d.digits).drop place, e?⟩ where
  whole_ne_nil := by
    have hne : natDigits d.digits ≠ [] := Nat.toDigits_ne_nil
    simp [hne]
    omega
  isDigit_whole c hc := Text.isDigit_of_mem_natDigits (List.mem_of_mem_take hc)
  whole_of_zero := by
    intro hzero
    rw [List.head?_take, if_neg (by omega)] at hzero
    exact absurd hzero (head?_natDigits hd)
  isDigit_fraction c hc := Text.isDigit_of_mem_natDigits (List.mem_of_mem_drop hc)
  exponent := he

theorem ofDigitChars_cut (d : Decimal) (place : Nat) :
    Nat.ofDigitChars 10 ((natDigits d.digits).take place ++ (natDigits d.digits).drop place) 0 =
      d.digits * 10 ^ 0 := by
  rw [List.take_append_drop, pow_zero, Nat.mul_one]
  exact Nat.ofDigitChars_ten_toDigits

theorem writes_fractional (hd : 0 < d.digits) (hfirst : 0 ≤ d.first)
    (hplain : d.first ≤ greatestPlain) (hlong : d.first.toNat + 1 < (natDigits d.digits).length)
    (negative : Bool) :
    Numeral.Writes ⟨negative, (natDigits d.digits).take (d.first.toNat + 1),
      (natDigits d.digits).drop (d.first.toNat + 1), none⟩ d where
  proper := proper_cut hd (by omega) negative (by simp)
  length_whole := by
    rw [greatestPlain] at hplain
    rw [List.length_take]
    omega
  value := by
    refine ⟨0, ofDigitChars_cut d _, ?_⟩
    simp only [Numeral.power, List.length_drop]
    rw [first] at *
    omega
  power_le := le_max_left _ _

theorem power_scientific (negative : Bool) (whole fraction : List Char) (e : Int) :
    Numeral.power ⟨negative, whole, fraction, some ⟨e < 0, natDigits e.natAbs⟩⟩ = e := by
  simp only [Numeral.power, natDigits, Nat.ofDigitChars_ten_toDigits, decide_eq_true_eq]
  omega

theorem writes_scientific (hd : 0 < d.digits) (negative : Bool) :
    Numeral.Writes ⟨negative, (natDigits d.digits).take 1, (natDigits d.digits).drop 1,
      some ⟨d.first < 0, natDigits d.first.natAbs⟩⟩ d where
  proper := by
    refine proper_cut hd (by decide) negative ?_
    rintro e ⟨⟩
    exact ⟨Nat.toDigits_ne_nil, fun c hc => Text.isDigit_of_mem_natDigits hc⟩
  length_whole := by
    rw [List.length_take]
    omega
  value := by
    refine ⟨0, ofDigitChars_cut d _, ?_⟩
    have hpos : 0 < (natDigits d.digits).length := Nat.length_toDigits_pos
    rw [power_scientific, List.length_drop, first]
    omega
  power_le := by
    rw [power_scientific]
    exact le_max_right _ _

/-- **The numeral of a decimal has its value.** -/
theorem writes_numeral (hd : 0 < d.digits) (negative : Bool) : (d.numeral negative).Writes d := by
  unfold numeral
  simp only
  split
  · next hplain =>
    split
    · next hfirst => exact writes_below_one hfirst negative
    · next hfirst =>
      have hfirst : 0 ≤ d.first := Int.not_lt.1 hfirst
      split
      · next hshort => exact writes_integral hd hfirst hplain.2 hshort negative
      · next hlong => exact writes_fractional hd hfirst hplain.2 (Nat.not_le.1 hlong) negative
  · exact writes_scientific hd negative

/-! ## 4. Decimals of magnitudes -/

/-- On a grid a neighbour that rounds to the magnitude is found, or none. -/
theorem units_of_onGrid? {e : Int} {u : Nat} (h : onGrid? e u = some d) : d.units = u := by
  unfold onGrid? at h
  generalize floor e u = lower at h
  by_cases hlower : lower.units = u
  · by_cases hsucc : lower.succ.units = u
    · simp only [if_pos hlower, if_pos hsucc, Option.some.injEq] at h
      rw [← h, nearer]
      split
      · exact hlower
      · exact hsucc
    · simp only [if_pos hlower, if_neg hsucc, Option.some.injEq] at h
      rwa [← h]
  · simp only [if_neg hlower, Option.ite_none_right_eq_some, Option.some.injEq] at h
    obtain ⟨hsucc, rfl⟩ := h
    exact hsucc

theorem units_of_search {u tries : Nat} {e : Int} (h : search u tries e = some d) :
    d.units = u := by
  induction tries generalizing e with
  | zero =>
    rw [search] at h
    exact units_of_onGrid? h
  | succ tries ih =>
    rw [search, Option.orElse_eq_some] at h
    rcases h with h | ⟨-, h⟩
    · exact units_of_onGrid? h
    · exact ih h

/-- A number of units that is a decimal rounds to itself. -/
theorem units_mul {u five k : Nat} (hu : Representable u) (hk : five * unitsPerOne = Nat.pow 10 k) :
    units ⟨u * five, -k⟩ = u := by
  have hnum : num ⟨u * five, -k⟩ = u * Nat.pow 10 k := by
    have hexponent : (-(k : Int)).toNat = 0 := by omega
    rw [← hk, ← Nat.mul_assoc, num, hexponent]
    exact congrArg (· * unitsPerOne) (Nat.mul_one _)
  have hden : den ⟨u * five, -k⟩ = Nat.pow 10 k := by
    rw [den, Int.neg_neg, Int.toNat_natCast]
  rw [units, hnum, hden]
  exact roundUnits_mul_self hu (Nat.pow_pos (by decide))

/-- The unit is a decimal with 1074 places behind the point. -/
theorem exists_places :
    ∃ k : Nat, -(k : Int) = -1074 ∧ Nat.pow 5 1074 * unitsPerOne = Nat.pow 10 k :=
  ⟨1074, rfl, by decide +kernel⟩

/-- **The decimal that is written for a magnitude rounds to it.** -/
theorem units_shortest {u : Nat} (hu : Representable u) : (shortest u).units = u := by
  rw [shortest]
  split
  · next hzero =>
    rw [hzero, units, num, Nat.zero_mul, Nat.zero_mul, roundUnits_zero]
  · cases hsearch : search u 20 (ceiling u) with
    | some d => exact units_of_search hsearch
    | none =>
      obtain ⟨k, hk, hpow⟩ := exists_places
      rw [Option.getD_none, ← hk]
      exact units_mul hu hpow

end Decimal

end DocPath
