import Mathlib.Algebra.Order.Field.Rat
import Mathlib.Data.Nat.Cast.Order.Field
import Mathlib.Tactic.FieldSimp
import Mathlib.Tactic.GCongr
import Mathlib.Tactic.NormNum
import DocPath.Proofs.Spelling

/-!
# How far scaling goes wrong

A reader scales the digits of a decimal by floating point arithmetic: it rounds the digits, rounds a
power of ten, multiplies or divides, and rounds again.  If the digits have 53 bits and the power has
at most 22 zeros, the first two roundings change nothing, and the decimal is read as what it rounds
to (`scale?_of_short`).

Otherwise every rounding adds its error.  What is rounded last is then a quotient that differs from
the decimal by little more than two parts in `2 ^ 53` (`exists_quotient_of_scale?`), and
this is less than four times the distance of neighbouring magnitudes (`roundUnits_drift`).
-/

namespace DocPath

variable {num den : Nat}

/-! ## 1. Scaling without an error -/

theorem roundDiv_mul_right (num den : Nat) {c : Nat} (hc : 0 < c) :
    roundDiv (num * c) (den * c) = roundDiv num den := by
  have hcond : (2 * (num % den * c) < den * c ∨
      2 * (num % den * c) = den * c ∧ num / den % 2 = 0) ↔
        (2 * (num % den) < den ∨ 2 * (num % den) = den ∧ num / den % 2 = 0) := by
    rw [← Nat.mul_assoc, Nat.mul_lt_mul_right hc, Nat.mul_left_inj (Nat.ne_of_gt hc)]
  simp only [roundDiv, Nat.mul_div_mul_right _ _ hc, Nat.mul_mod_mul_right, hcond]

/-- A fraction may be reduced before it is rounded. -/
theorem roundUnits_mul_right (num den : Nat) {c : Nat} (hc : 0 < c) :
    roundUnits (num * c) (den * c) = roundUnits num den := by
  rw [roundUnits, Nat.mul_div_mul_right _ _ hc, Nat.mul_right_comm, roundDiv_mul_right _ _ hc,
    ← roundUnits]

/-- The constants of the powers of ten, evaluated: with 22 zeros they are far below the limit, and
the one with 308 zeros is rounded by at most one part in `2 ^ 56`. -/
theorem constants_of_pow10 :
    10 ^ 22 * unitsPerOne < unitsLimit ∧
      (2 ^ 56 - 1) * (10 ^ 308 * unitsPerOne) ≤ 2 ^ 56 * unitsOfPow10 308 ∧
      2 ^ 56 * unitsOfPow10 308 ≤ (2 ^ 56 + 1) * (10 ^ 308 * unitsPerOne) := by
  decide +kernel

/-- A power of ten with at most 22 zeros is not rounded. -/
theorem unitsOfPow10_of_le {k : Nat} (hk : k ≤ 22) : unitsOfPow10 k = 10 ^ k * unitsPerOne := by
  have hpow : Nat.pow 10 k = 10 ^ k := rfl
  rw [unitsOfPow10, unitsOfNat, hpow]
  refine roundUnits_of_representable ?_
  have hten : 10 ^ k ≤ 10 ^ 22 := Nat.pow_le_pow_right (by decide) hk
  have hlimit : 10 ^ k * unitsPerOne < unitsLimit :=
    Nat.lt_of_le_of_lt (Nat.mul_le_mul_right unitsPerOne hten) constants_of_pow10.1
  have hsplit : 10 ^ k * unitsPerOne = 5 ^ k * 2 ^ (k + unitsPerOne.log2) := by
    rw [pow_add, unitsPerOne_eq_pow, ← Nat.mul_assoc, ← Nat.mul_pow]
  have hfive : 5 ^ k < 2 ^ 53 :=
    Nat.lt_of_le_of_lt (Nat.pow_le_pow_right (by decide) hk) (by decide)
  rw [hsplit] at hlimit ⊢
  exact representable_mul_pow hfive hlimit

namespace Json.Numeral

/-- **A decimal whose digits have 53 bits and whose power of ten has at most 22 zeros is read as
what it rounds to.** -/
theorem scale?_of_short {d : Decimal} (hdigits : d.digits < 2 ^ 53)
    (hexponent : d.exponent.natAbs ≤ 22) :
    scale? (unitsOfNat d.digits) d.exponent = some d.units := by
  have hone := unitsPerOne_pos
  rw [scale?, unitsOfNat_of_lt hdigits, Decimal.units, Decimal.num, Decimal.den]
  split
  · next hneg =>
    have hup : d.exponent.toNat = 0 := by omega
    have hdown : (-d.exponent).toNat = d.exponent.natAbs := by omega
    rw [divPow10, if_pos (by omega), divUnits, unitsOfPow10_of_le hexponent, hup, hdown,
      roundUnits_mul_right _ _ hone]
    have hzero : Nat.pow 10 0 = 1 := rfl
    rw [hzero, Nat.mul_one]
    rfl
  · next hneg =>
    have hup : d.exponent.toNat = d.exponent.natAbs := by omega
    have hdown : (-d.exponent).toNat = 0 := by omega
    rw [if_pos (by omega), mulUnits, unitsOfPow10_of_le hexponent, hup, hdown]
    have hproduct : d.digits * unitsPerOne * (10 ^ d.exponent.natAbs * unitsPerOne) =
        d.digits * Nat.pow 10 d.exponent.natAbs * unitsPerOne * unitsPerOne := by
      change _ = d.digits * 10 ^ d.exponent.natAbs * unitsPerOne * unitsPerOne
      ring
    have hreduced := roundUnits_mul_right
      (d.digits * Nat.pow 10 d.exponent.natAbs * unitsPerOne) 1 hone
    rw [Nat.one_mul] at hreduced
    rw [hproduct, hreduced]

end Json.Numeral

/-! ## 2. The error of one rounding -/

theorem lt_mul_spacing (u : Nat) : u < 2 ^ 53 * spacing u := by
  rcases Nat.lt_or_ge u (2 ^ 52) with hshort | hlong
  · have := spacing_pos u
    omega
  · exact (spacing_bounds hlong).2

/-- A number of twice the length of `u` at most has at most twice its spacing. -/
theorem spacing_le_of_lt {q u : Nat} (h : q < 2 ^ 54 * spacing u) : spacing q ≤ 2 * spacing u := by
  rw [spacing_eq u, ← pow_add] at h
  rw [spacing_eq q, spacing_eq u, ← pow_succ']
  refine Nat.pow_le_pow_right (by decide) ?_
  rcases Nat.eq_zero_or_pos q with rfl | hpos
  · exact Nat.zero_le _
  · have hlog := (Nat.log2_lt (Nat.ne_of_gt hpos)).2 h
    omega

/-- Rounding goes half a spacing at most. -/
theorem abs_roundUnits_sub_le (num : Nat) (hden : 0 < den) :
    |(roundUnits num den : ℚ) - num / den| ≤ spacing (num / den) / 2 := by
  have hpos : (0 : ℚ) < den := Nat.cast_pos.2 hden
  obtain ⟨hlow, hhigh⟩ := roundUnits_bounds num hden
  generalize roundUnits num den = r at *
  generalize spacing (num / den) = s at *
  have hlow : 2 * (num : ℚ) ≤ (2 * r + s) * den := by exact_mod_cast hlow
  have hhigh : 2 * (r : ℚ) * den ≤ 2 * num + s * den := by exact_mod_cast hhigh
  have hnum : (num : ℚ) = num / den * den := (div_mul_cancel₀ _ (ne_of_gt hpos)).symm
  generalize (num : ℚ) / den = q at *
  rw [hnum, ← mul_assoc] at hlow hhigh
  rw [← add_mul] at hhigh
  have hlow := le_of_mul_le_mul_right hlow hpos
  have hhigh := le_of_mul_le_mul_right hhigh hpos
  rw [abs_le]
  constructor <;> linarith

/-- Half a spacing is one part in `2 ^ 53`, or half a unit. -/
theorem half_spacing_le (num den : Nat) :
    (spacing (num / den) : ℚ) / 2 ≤ num / den / 2 ^ 53 ∨ (spacing (num / den) : ℚ) / 2 = 1 / 2 := by
  rcases Nat.lt_or_ge (num / den) (2 ^ 52) with hshort | hlong
  · right
    rw [spacing_of_lt (Nat.lt_trans hshort (by decide)), Nat.cast_one]
  · left
    have hspacing : (2 ^ 52 * spacing (num / den) : ℚ) ≤ (num / den : Nat) := by
      exact_mod_cast (spacing_bounds hlong).1
    have hfloor : ((num / den : Nat) : ℚ) ≤ num / den := Nat.cast_div_le
    linarith

/-- `a` is `b` but for a part `ε` of it. -/
structure Near (ε a b : ℚ) : Prop where
  low : (1 - ε) * b ≤ a
  high : a ≤ (1 + ε) * b

namespace Near

variable {ε ε₁ ε₂ a b a' b' c : ℚ}

theorem abs_sub_le (h : Near ε a b) : |a - b| ≤ ε * b := by
  obtain ⟨hlow, hhigh⟩ := h
  rw [abs_le]
  constructor <;> linarith

theorem mul_right (h : Near ε a b) (hc : 0 ≤ c) : Near ε (a * c) (b * c) where
  low := by
    rw [← mul_assoc]
    exact mul_le_mul_of_nonneg_right h.low hc
  high := by
    rw [← mul_assoc]
    exact mul_le_mul_of_nonneg_right h.high hc

/-- The errors of two factors add up, but for a term of second order. -/
theorem mul (h : Near ε₁ a b) (h' : Near ε₂ a' b') (hb : 0 ≤ b) (hb' : 0 ≤ b') (h₁ : ε₁ ≤ 1)
    (h₂ : ε₂ ≤ 1) (hlow : 1 - ε ≤ (1 - ε₁) * (1 - ε₂)) (hhigh : (1 + ε₁) * (1 + ε₂) ≤ 1 + ε) :
    Near ε (a * a') (b * b') := by
  have hlow₁ : 0 ≤ (1 - ε₁) * b := mul_nonneg (sub_nonneg.2 h₁) hb
  have hlow₂ : 0 ≤ (1 - ε₂) * b' := mul_nonneg (sub_nonneg.2 h₂) hb'
  have ha : 0 ≤ a := le_trans hlow₁ h.low
  have ha' : 0 ≤ a' := le_trans hlow₂ h'.low
  constructor
  · calc (1 - ε) * (b * b') ≤ (1 - ε₁) * (1 - ε₂) * (b * b') :=
          mul_le_mul_of_nonneg_right hlow (mul_nonneg hb hb')
      _ = (1 - ε₁) * b * ((1 - ε₂) * b') := by ring
      _ ≤ a * a' := mul_le_mul h.low h'.low hlow₂ ha
  · calc a * a' ≤ (1 + ε₁) * b * ((1 + ε₂) * b') :=
          mul_le_mul h.high h'.high ha' (le_trans ha h.high)
      _ = (1 + ε₁) * (1 + ε₂) * (b * b') := by ring
      _ ≤ (1 + ε) * (b * b') := mul_le_mul_of_nonneg_right hhigh (mul_nonneg hb hb')

/-- So do those of a dividend and a divisor. -/
theorem div (h : Near ε₁ a b) (h' : Near ε₂ a' b') (hb : 0 ≤ b) (hb' : 0 < b') (h₂ : ε₂ < 1)
    (hε : 0 ≤ ε) (hε' : ε ≤ 1) (hlow : (1 - ε) * (1 + ε₂) ≤ 1 - ε₁)
    (hhigh : 1 + ε₁ ≤ (1 + ε) * (1 - ε₂)) : Near ε (a / a') (b / b') := by
  have ha' : 0 < a' := lt_of_lt_of_le (mul_pos (sub_pos.2 h₂) hb') h'.low
  have hq : 0 ≤ b / b' := div_nonneg hb (le_of_lt hb')
  have hcancel : b / b' * b' = b := div_mul_cancel₀ _ (ne_of_gt hb')
  constructor
  · rw [le_div_iff₀ ha']
    calc (1 - ε) * (b / b') * a' ≤ (1 - ε) * (b / b') * ((1 + ε₂) * b') :=
          mul_le_mul_of_nonneg_left h'.high (mul_nonneg (sub_nonneg.2 hε') hq)
      _ = (1 - ε) * (1 + ε₂) * (b / b' * b') := by ring
      _ = (1 - ε) * (1 + ε₂) * b := by rw [hcancel]
      _ ≤ (1 - ε₁) * b := mul_le_mul_of_nonneg_right hlow hb
      _ ≤ a := h.low
  · rw [div_le_iff₀ ha']
    calc a ≤ (1 + ε₁) * b := h.high
      _ ≤ (1 + ε) * (1 - ε₂) * b := mul_le_mul_of_nonneg_right hhigh hb
      _ = (1 + ε) * (1 - ε₂) * (b / b' * b') := by rw [hcancel]
      _ = (1 + ε) * (b / b') * ((1 - ε₂) * b') := by ring
      _ ≤ (1 + ε) * (b / b') * a' :=
        mul_le_mul_of_nonneg_left h'.low (mul_nonneg (by linarith) hq)

end Near

/-! ## 3. The error of scaling -/

theorem cast_pow10 (k : Nat) : ((Nat.pow 10 k : Nat) : ℚ) = 10 ^ k := Nat.cast_pow 10 k

/-- A whole number is rounded by one part in `2 ^ 53` at most. -/
theorem near_unitsOfNat (n : Nat) : Near (1 / 2 ^ 53) (unitsOfNat n) (n * unitsPerOne) := by
  rcases Nat.eq_zero_or_pos n with rfl | hn
  · rw [unitsOfNat_zero, Nat.cast_zero, zero_mul]
    exact ⟨le_of_eq (mul_zero _), le_of_eq (mul_zero _).symm⟩
  · have hlong := pow_le_mul_unitsPerOne hn
    have hspacing : (2 ^ 52 * spacing (n * unitsPerOne) : ℚ) ≤ (n * unitsPerOne : Nat) := by
      exact_mod_cast (spacing_bounds hlong).1
    have hround := abs_le.1 (abs_roundUnits_sub_le (n * unitsPerOne) Nat.one_pos)
    rw [Nat.div_one, Nat.cast_one, div_one, ← unitsOfNat] at hround
    rw [← Nat.cast_mul]
    generalize unitsOfNat n = f at *
    generalize n * unitsPerOne = v at *
    obtain ⟨hlow, hhigh⟩ := hround
    constructor <;> linarith

theorem near_unitsOfPow10 (k : Nat) :
    Near (1 / 2 ^ 53) (unitsOfPow10 k) (10 ^ k * unitsPerOne) := by
  have hnear := near_unitsOfNat (Nat.pow 10 k)
  rwa [cast_pow10] at hnear

/-- The greatest power of ten is rounded by much less. -/
theorem near_unitsOfPow10_308 :
    Near (1 / 2 ^ 56) (unitsOfPow10 308) (10 ^ 308 * unitsPerOne) := by
  obtain ⟨-, hlow, hhigh⟩ := constants_of_pow10
  generalize unitsOfPow10 308 = p at *
  generalize unitsPerOne = one at *
  have hlow : ((2 ^ 56 - 1 : Nat) * (10 ^ 308 * one) : ℚ) ≤ 2 ^ 56 * p := by exact_mod_cast hlow
  have hhigh : (2 ^ 56 * p : ℚ) ≤ (2 ^ 56 + 1 : Nat) * (10 ^ 308 * one) := by exact_mod_cast hhigh
  generalize (10 : ℚ) ^ 308 * one = v at *
  norm_num at hlow hhigh
  constructor <;> linarith

/-- A product before it is rounded. -/
theorem near_product (m k : Nat) :
    Near (9 / 4 / 2 ^ 53) ((unitsOfNat m * unitsOfPow10 k : Nat) / unitsPerOne)
      (m * 10 ^ k * unitsPerOne) := by
  have hone : (0 : ℚ) < unitsPerOne := Nat.cast_pos.2 unitsPerOne_pos
  have hm := near_unitsOfNat m
  have hk := near_unitsOfPow10 k
  rw [Nat.cast_mul]
  generalize (unitsOfNat m : ℚ) = f at *
  generalize (unitsOfPow10 k : ℚ) = p at *
  generalize (unitsPerOne : ℚ) = one at *
  have hproduct : Near (9 / 4 / 2 ^ 53) (f * p) (m * one * (10 ^ k * one)) := by
    refine hm.mul hk ?_ ?_ ?_ ?_ ?_ ?_
    · positivity
    · positivity
    all_goals norm_num
  have hscaled := hproduct.mul_right (inv_nonneg.2 (le_of_lt hone))
  have hvalue : m * one * (10 ^ k * one) * one⁻¹ = m * 10 ^ k * one := by
    field_simp
  rwa [hvalue, ← div_eq_mul_inv] at hscaled

/-- A quotient before it is rounded, with an error that depends on that of the power of ten. -/
theorem near_quotient (ε : ℚ) {δ : ℚ} (m : Nat) {k : Nat}
    (hk : Near δ (unitsOfPow10 k) (10 ^ k * unitsPerOne)) (hδ : δ < 1) (hε : 0 ≤ ε) (hε' : ε ≤ 1)
    (hlow : (1 - ε) * (1 + δ) ≤ 1 - 1 / 2 ^ 53) (hhigh : 1 + 1 / 2 ^ 53 ≤ (1 + ε) * (1 - δ)) :
    Near ε ((unitsOfNat m * unitsPerOne : Nat) / unitsOfPow10 k) (m * unitsPerOne / 10 ^ k) := by
  have hone : (0 : ℚ) < unitsPerOne := Nat.cast_pos.2 unitsPerOne_pos
  have hm := near_unitsOfNat m
  rw [Nat.cast_mul]
  generalize (unitsOfNat m : ℚ) = f at *
  generalize (unitsOfPow10 k : ℚ) = p at *
  generalize (unitsPerOne : ℚ) = one at *
  have hquotient : Near ε (f / p) (m * one / (10 ^ k * one)) :=
    hm.div hk (by positivity) (by positivity) hδ hε hε' hlow hhigh
  have hscaled := hquotient.mul_right (le_of_lt hone)
  have hvalue : m * one / (10 ^ k * one) * one = m * one / 10 ^ k := by
    field_simp
  rwa [hvalue, div_mul_eq_mul_div] at hscaled

/-- The error of two divisions.  The first one may lose half a unit in rounding, of which the second
one, by ten or more, leaves a tenth at most. -/
theorem abs_div_sub_div_le {q w v s t : ℚ} (hexact : |w - v| ≤ 19 / 16 / 2 ^ 53 * v)
    (hround : |q - w| ≤ s / 2) (hhalf : s / 2 ≤ w / 2 ^ 53 ∨ s / 2 = 1 / 2) (hv : 0 ≤ v)
    (ht : 10 ≤ t) : |q / t - v / t| ≤ 9 / 4 / 2 ^ 53 * (v / t) + 1 / 20 := by
  have hpos : 0 < t := lt_of_lt_of_le (by norm_num) ht
  have hfirst : |q - v| ≤ 9 / 4 / 2 ^ 53 * v + 1 / 2 := by
    rw [abs_le] at *
    obtain ⟨hexact, hexact'⟩ := hexact
    obtain ⟨hround, hround'⟩ := hround
    rcases hhalf with hhalf | hhalf
    · constructor <;> linarith
    · constructor <;> linarith
  calc |q / t - v / t| = |q - v| / t := by rw [← sub_div, abs_div, abs_of_pos hpos]
    _ ≤ (9 / 4 / 2 ^ 53 * v + 1 / 2) / t := by gcongr
    _ = 9 / 4 / 2 ^ 53 * (v / t) + 1 / 2 / t := by ring
    _ ≤ 9 / 4 / 2 ^ 53 * (v / t) + 1 / 2 / 10 := by gcongr
    _ = 9 / 4 / 2 ^ 53 * (v / t) + 1 / 20 := by norm_num

/-- A quotient by a power of ten with more than 308 zeros, before the second division is rounded. -/
theorem abs_long_quotient_sub_le (m : Nat) {j : Nat} (hj : 0 < j) (hj' : j ≤ 22) :
    |((divUnits (unitsOfNat m) (unitsOfPow10 308) * unitsPerOne : Nat) / unitsOfPow10 j : ℚ) -
        m * unitsPerOne / 10 ^ (308 + j)| ≤
      9 / 4 / 2 ^ 53 * (m * unitsPerOne / 10 ^ (308 + j)) + 1 / 20 := by
  have hone : (0 : ℚ) < unitsPerOne := Nat.cast_pos.2 unitsPerOne_pos
  have hexact := (near_quotient (19 / 16 / 2 ^ 53) m near_unitsOfPow10_308 (by norm_num)
    (by norm_num) (by norm_num) (by norm_num) (by norm_num)).abs_sub_le
  have hround := abs_roundUnits_sub_le (unitsOfNat m * unitsPerOne) (unitsOfPow10_pos 308)
  have hhalf := half_spacing_le (unitsOfNat m * unitsPerOne) (unitsOfPow10 308)
  rw [unitsOfPow10_of_le hj', divUnits]
  generalize roundUnits (unitsOfNat m * unitsPerOne) (unitsOfPow10 308) = q at *
  generalize (spacing (unitsOfNat m * unitsPerOne / unitsOfPow10 308) : ℚ) = s at *
  generalize ((unitsOfNat m * unitsPerOne : Nat) / unitsOfPow10 308 : ℚ) = w at *
  have hreduced : ((q * unitsPerOne : Nat) / (10 ^ j * unitsPerOne : Nat) : ℚ) = q / 10 ^ j := by
    rw [Nat.cast_mul, Nat.cast_mul, Nat.cast_pow, Nat.cast_ofNat,
      mul_div_mul_right _ _ (ne_of_gt hone)]
  have hten : (10 : ℚ) ≤ 10 ^ j := by
    calc (10 : ℚ) = 10 ^ 1 := (pow_one _).symm
      _ ≤ 10 ^ j := pow_le_pow_right₀ (by norm_num) hj
  have hvalue : (0 : ℚ) ≤ m * unitsPerOne / 10 ^ 308 :=
    div_nonneg (mul_nonneg (Nat.cast_nonneg m) (le_of_lt hone)) (by positivity)
  rw [hreduced, pow_add, ← div_div]
  exact abs_div_sub_div_le hexact hround hhalf hvalue hten

namespace Json.Numeral

variable {d : Decimal} {w : Nat}

/-- **What is rounded last differs from the decimal by little more than two parts in `2 ^ 53`.** -/
theorem exists_quotient_of_scale? (hdigits : 0 < d.digits) (hexponent : -324 ≤ d.exponent)
    (h : scale? (unitsOfNat d.digits) d.exponent = some w) :
    ∃ num den : Nat, 0 < den ∧ w = roundUnits num den ∧
      |(num / den : ℚ) - d.num / d.den| ≤ 9 / 4 / 2 ^ 53 * (d.num / d.den) + 1 / 20 := by
  have hne : unitsOfNat d.digits ≠ 0 :=
    Nat.ne_of_gt (Nat.lt_of_lt_of_le unitsPerOne_pos (unitsPerOne_le_unitsOfNat hdigits))
  have hdown (k : Nat) (hk : d.exponent = -k) :
      (d.num / d.den : ℚ) = d.digits * unitsPerOne / 10 ^ k := by
    have hup : d.exponent.toNat = 0 := by omega
    have hto : (-d.exponent).toNat = k := by omega
    rw [Decimal.num, Decimal.den, hup, hto, Nat.cast_mul, Nat.cast_mul, cast_pow10, cast_pow10,
      pow_zero, mul_one]
  rw [scale?] at h
  split at h
  · obtain ⟨k, hk⟩ : ∃ k : Nat, d.exponent = -k := ⟨d.exponent.natAbs, by omega⟩
    have habs : d.exponent.natAbs = k := by omega
    rw [habs] at h
    rw [hdown k hk]
    rcases Nat.lt_or_ge 308 k with hlong | hshort
    · obtain ⟨j, rfl⟩ := Nat.exists_eq_add_of_lt hlong
      rw [divPow10, if_neg (by omega), if_neg hne, divPow10, if_pos (by omega)] at h
      have hrest : 308 + j + 1 - 308 = j + 1 := by omega
      rw [hrest] at h
      exact ⟨_, _, unitsOfPow10_pos (j + 1), (Option.some.inj h).symm,
        abs_long_quotient_sub_le d.digits (Nat.succ_pos j) (by omega)⟩
    · rw [divPow10, if_pos hshort, divUnits] at h
      refine ⟨_, _, unitsOfPow10_pos k, (Option.some.inj h).symm, ?_⟩
      have hnear := (near_quotient (9 / 4 / 2 ^ 53) d.digits (near_unitsOfPow10 k)
        (by norm_num) (by norm_num) (by norm_num) (by norm_num) (by norm_num)).abs_sub_le
      linarith
  · split at h
    · refine ⟨_, _, unitsPerOne_pos, (Option.some.inj h).symm, ?_⟩
      have hto : (-d.exponent).toNat = 0 := by omega
      have hup : d.exponent.toNat = d.exponent.natAbs := by omega
      have hvalue : (d.num / d.den : ℚ) =
          d.digits * 10 ^ d.exponent.natAbs * unitsPerOne := by
        rw [Decimal.num, Decimal.den, hto, hup, Nat.cast_mul, Nat.cast_mul, cast_pow10, cast_pow10,
          pow_zero, div_one]
      rw [hvalue]
      have hnear := (near_product d.digits d.exponent.natAbs).abs_sub_le
      linarith
    · cases h

end Json.Numeral

/-! ## 4. What the errors amount to -/

/-- **Quotients that are so close are rounded to magnitudes less than four spacings apart.** -/
theorem roundUnits_drift {num' den' : Nat} (hden : 0 < den) (hden' : 0 < den')
    (hnear : |(num' / den' : ℚ) - num / den| ≤ 9 / 4 / 2 ^ 53 * (num / den) + 1 / 20) :
    roundUnits num den < roundUnits num' den' + 4 * spacing (roundUnits num den) ∧
      roundUnits num' den' < roundUnits num den + 4 * spacing (roundUnits num den) := by
  have hround := abs_roundUnits_sub_le num hden
  have hround' := abs_roundUnits_sub_le num' hden'
  have hspacing : (spacing (num / den) : ℚ) ≤ spacing (roundUnits num den) := by
    exact_mod_cast spacing_le_spacing_roundUnits num hden
  have hlong : (roundUnits num den : ℚ) < 2 ^ 53 * spacing (roundUnits num den) := by
    exact_mod_cast lt_mul_spacing (roundUnits num den)
  have hs : (1 : ℚ) ≤ spacing (roundUnits num den) := by
    exact_mod_cast spacing_pos (roundUnits num den)
  have hfloor : ((num' / den' : Nat) : ℚ) ≤ num' / den' := Nat.cast_div_le
  have htwice (hlt : ((num' / den' : Nat) : ℚ) < 2 ^ 54 * spacing (roundUnits num den)) :
      (spacing (num' / den') : ℚ) ≤ 2 * spacing (roundUnits num den) := by
    exact_mod_cast spacing_le_of_lt (by exact_mod_cast hlt)
  generalize roundUnits num den = u at *
  generalize roundUnits num' den' = w at *
  generalize (spacing (num' / den') : ℚ) = s' at *
  generalize ((num' / den' : Nat) : ℚ) = q at *
  generalize (num / den : ℚ) = v at *
  generalize (num' / den' : ℚ) = v' at *
  rw [abs_le] at hround hround' hnear
  obtain ⟨hu, hu'⟩ := hround
  obtain ⟨hw, hw'⟩ := hround'
  obtain ⟨hv, hv'⟩ := hnear
  have hclose : v' ≤ u + 3 * spacing u ∧ u ≤ v' + 3 * spacing u := by
    constructor <;> linarith
  have hs' : s' ≤ 2 * spacing u := htwice (by linarith)
  have hlow : (u : ℚ) < w + 4 * spacing u := by linarith
  have hhigh : (w : ℚ) < u + 4 * spacing u := by linarith
  exact ⟨by exact_mod_cast hlow, by exact_mod_cast hhigh⟩

end DocPath
