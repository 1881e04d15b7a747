import Mathlib.Algebra.Order.Ring.Nat
import Mathlib.Tactic.Linarith
import Mathlib.Tactic.Ring
import DocPath.Json.Numeral
import DocPath.Proofs.Rounding

/-!
# Rounding stays close and stays among the magnitudes

Whatever is rounded becomes a magnitude, unless it is too large (`representable_roundUnits`), and
the result lies within half a spacing of what was rounded (`roundUnits_bounds`).  So a quotient by a
number that is at least one is no larger than the dividend (`roundUnits_mul_le`), and dividing by
powers of ten never leaves the magnitudes (`representable_divPow10`).

Multiplying can leave them.  A significand and a power of ten are both rounded before they are
multiplied, and each of the two may gain one part in `2 ^ 53`; so the product is a magnitude if the
exact product rounds to one that is not among the three greatest (`mulUnits_lt`).
-/

namespace DocPath

variable {u v num den : Nat}

/-! ## 1. Spacings -/

theorem spacing_eq (u : Nat) : spacing u = 2 ^ (u.log2 - 52) := rfl

theorem log2_le_log2 (h : u ≤ v) : u.log2 ≤ v.log2 := by
  rcases Nat.eq_zero_or_pos u with rfl | hu
  · exact Nat.zero_le _
  · exact (Nat.le_log2 (by omega)).2 (Nat.le_trans (Nat.log2_self_le (by omega)) h)

theorem spacing_dvd_spacing_of_log2 (h : u.log2 ≤ v.log2) : spacing u ∣ spacing v :=
  Nat.pow_dvd_pow 2 (Nat.sub_le_sub_right h 52)

theorem pow_log2_eq (h : 2 ^ 52 ≤ u) : 2 ^ u.log2 = 2 ^ 52 * spacing u := by
  have hlog : 52 ≤ u.log2 := (Nat.le_log2 (by omega)).2 h
  rw [spacing_eq, ← pow_add, Nat.add_sub_cancel' hlog]

/-- A number of full length counts from `2 ^ 52` to `2 ^ 53` spacings. -/
theorem spacing_bounds (h : 2 ^ 52 ≤ u) : 2 ^ 52 * spacing u ≤ u ∧ u < 2 ^ 53 * spacing u := by
  have hpow := pow_log2_eq h
  have hlow : 2 ^ u.log2 ≤ u := Nat.log2_self_le (by omega)
  have hhigh : u < 2 ^ (u.log2 + 1) := Nat.lt_log2_self
  rw [pow_succ] at hhigh
  omega

/-- A shorter number has a spacing of one unit. -/
theorem spacing_of_lt (h : u < 2 ^ 53) : spacing u = 1 := by
  have hlog : u.log2 ≤ 52 := by
    rcases Nat.eq_zero_or_pos u with rfl | hu
    · decide
    · exact Nat.le_of_lt_succ ((Nat.log2_lt (by omega)).2 h)
  rw [spacing_eq, Nat.sub_eq_zero_of_le hlog, pow_zero]

/-- The distance between the greatest magnitudes. -/
def topSpacing : Nat := Nat.pow 2 2045

/-- The constants of the format, evaluated: they are powers of two, and the greatest magnitudes have
53 significant bits. -/
theorem constants_eq_pow :
    2 ^ unitsPerOne.log2 = unitsPerOne ∧ 2 ^ unitsLimit.log2 = unitsLimit ∧
      2 ^ (unitsLimit.log2 - 53) = topSpacing ∧ unitsLimit = 2 ^ 53 * topSpacing := by
  decide +kernel

theorem unitsPerOne_eq_pow : 2 ^ unitsPerOne.log2 = unitsPerOne := constants_eq_pow.1

theorem unitsLimit_eq_pow : 2 ^ unitsLimit.log2 = unitsLimit := constants_eq_pow.2.1

theorem topSpacing_eq_pow : 2 ^ (unitsLimit.log2 - 53) = topSpacing := constants_eq_pow.2.2.1

theorem unitsLimit_eq : unitsLimit = 2 ^ 53 * topSpacing := constants_eq_pow.2.2.2

theorem topSpacing_pos : 0 < topSpacing := by
  rw [← topSpacing_eq_pow]
  exact Nat.two_pow_pos _

theorem spacing_le_topSpacing (h : u < unitsLimit) : spacing u ≤ topSpacing := by
  have hlog : u.log2 < unitsLimit.log2 ∨ u = 0 := by
    rcases Nat.eq_zero_or_pos u with rfl | hu
    · exact .inr rfl
    · exact .inl ((Nat.log2_lt (by omega)).2 (Nat.lt_of_lt_of_eq h unitsLimit_eq_pow.symm))
  rw [← topSpacing_eq_pow, spacing_eq]
  rcases hlog with hlog | rfl
  · exact Nat.pow_le_pow_right (by decide) (by omega)
  · exact Nat.one_le_two_pow

/-! ## 2. How far rounding goes -/

/-- A quotient is rounded down or up, and by half at most. -/
theorem roundDiv_bounds (num : Nat) (hden : 0 < den) :
    num / den ≤ roundDiv num den ∧ roundDiv num den ≤ num / den + 1 ∧
      2 * num ≤ (2 * roundDiv num den + 1) * den ∧
      2 * roundDiv num den * den ≤ 2 * num + den := by
  have hnum : num / den * den + num % den = num := by
    rw [Nat.mul_comm]
    exact Nat.div_add_mod num den
  have hrest := Nat.mod_lt num hden
  simp only [roundDiv]
  generalize num / den = below at *
  split
  · next hdown =>
    have hle : 2 * (num % den) ≤ den := by omega
    simp only [Nat.add_mul, Nat.mul_assoc]
    omega
  · next hup =>
    have hle : den ≤ 2 * (num % den) := by omega
    simp only [Nat.add_mul, Nat.mul_add, Nat.mul_assoc]
    omega

/-- Rounding goes half a spacing at most. -/
theorem roundUnits_bounds (num : Nat) (hden : 0 < den) :
    2 * num ≤ (2 * roundUnits num den + spacing (num / den)) * den ∧
      2 * roundUnits num den * den ≤ 2 * num + spacing (num / den) * den := by
  have hs := spacing_pos (num / den)
  obtain ⟨-, -, hlow, hhigh⟩ := roundDiv_bounds num (Nat.mul_pos hden hs)
  rw [roundUnits]
  generalize roundDiv num (den * spacing (num / den)) = q at hlow hhigh ⊢
  generalize spacing (num / den) = s at hlow hhigh ⊢
  constructor
  · calc 2 * num ≤ (2 * q + 1) * (den * s) := hlow
      _ = (2 * (q * s) + s) * den := by ring
  · calc 2 * (q * s) * den = 2 * q * (den * s) := by ring
      _ ≤ 2 * num + den * s := hhigh
      _ = 2 * num + s * den := by ring

/-- What is rounded gains at most one part in `2 ^ 53`. -/
theorem roundUnits_rel (hden : 0 < den) (h : 2 ^ 52 ≤ num / den) :
    2 ^ 53 * (roundUnits num den * den) ≤ (2 ^ 53 + 1) * num := by
  obtain ⟨-, hhigh⟩ := roundUnits_bounds num hden
  have hspacing : 2 ^ 52 * (spacing (num / den) * den) ≤ num := by
    calc 2 ^ 52 * (spacing (num / den) * den) = 2 ^ 52 * spacing (num / den) * den := by ring
      _ ≤ num / den * den := Nat.mul_le_mul_right den (spacing_bounds h).1
      _ ≤ num := Nat.div_mul_le_self num den
  rw [Nat.mul_assoc 2] at hhigh
  omega

/-- What reaches a power of two is not rounded below it. -/
theorem pow_le_roundUnits {k : Nat} (hden : 0 < den) (hk : 52 ≤ k) (h : 2 ^ k ≤ num / den) :
    2 ^ k ≤ roundUnits num den := by
  have hlong : 2 ^ 52 ≤ num / den := Nat.le_trans (Nat.pow_le_pow_right (by decide) hk) h
  have hs := spacing_pos (num / den)
  obtain ⟨hbelow, -, -, -⟩ := roundDiv_bounds num (Nat.mul_pos hden hs)
  have hcount : 2 ^ 52 ≤ num / (den * spacing (num / den)) := by
    rw [← Nat.div_div_eq_div_mul, Nat.le_div_iff_mul_le hs]
    exact (spacing_bounds hlong).1
  calc 2 ^ k ≤ 2 ^ (num / den).log2 :=
        Nat.pow_le_pow_right (by decide) ((Nat.le_log2 (by omega)).2 h)
    _ = 2 ^ 52 * spacing (num / den) := pow_log2_eq hlong
    _ ≤ roundUnits num den := Nat.mul_le_mul_right _ (Nat.le_trans hcount hbelow)

/-- What rounds to less than the limit is less than the limit. -/
theorem div_lt_unitsLimit (hden : 0 < den) (h : roundUnits num den < unitsLimit) :
    num / den < unitsLimit := by
  refine Nat.not_le.1 fun hle => ?_
  rw [← unitsLimit_eq_pow] at hle h
  exact absurd (pow_le_roundUnits hden (by decide +kernel) hle) (Nat.not_le.2 h)

/-- What is less than the limit by more than half a spacing rounds to less than the limit. -/
theorem roundUnits_lt (hden : 0 < den) (h : 2 * num + topSpacing * den < 2 * unitsLimit * den) :
    roundUnits num den < unitsLimit := by
  have hlt : num / den < unitsLimit := by
    rw [Nat.div_lt_iff_lt_mul hden]
    rw [Nat.mul_assoc] at h
    omega
  obtain ⟨-, hhigh⟩ := roundUnits_bounds num hden
  have hspacing : spacing (num / den) * den ≤ topSpacing * den :=
    Nat.mul_le_mul_right den (spacing_le_topSpacing hlt)
  have hdouble : 2 * roundUnits num den * den < 2 * unitsLimit * den := by omega
  have := Nat.lt_of_mul_lt_mul_right hdouble
  omega

/-! ## 3. Rounding leads to magnitudes -/

/-- **What is rounded is a magnitude**, unless it is too large. -/
theorem representable_roundUnits (num : Nat) (hden : 0 < den)
    (h : roundUnits num den < unitsLimit) : Representable (roundUnits num den) := by
  refine ⟨h, Nat.mod_eq_zero_of_dvd ?_⟩
  have hs := spacing_pos (num / den)
  obtain ⟨-, hcount, -, -⟩ := roundDiv_bounds num (Nat.mul_pos hden hs)
  rw [← Nat.div_div_eq_div_mul] at hcount
  have hdvd : spacing (num / den) ∣ roundUnits num den := Nat.dvd_mul_left _ _
  rcases Nat.lt_or_ge (num / den) (2 ^ 52) with hshort | hlong
  · have hone : spacing (num / den) = 1 := spacing_of_lt (Nat.lt_trans hshort (by decide))
    have hle : roundUnits num den ≤ num / den + 1 := by
      rw [roundUnits, hone]
      rw [hone, Nat.div_one] at hcount
      simpa using hcount
    rw [spacing_of_lt (by omega)]
    exact one_dvd _
  · have hpow := pow_log2_eq hlong
    have hle : roundUnits num den ≤ 2 ^ 53 * spacing (num / den) := by
      have hlt : num / den / spacing (num / den) < 2 ^ 53 :=
        (Nat.div_lt_iff_lt_mul hs).2 (spacing_bounds hlong).2
      exact Nat.mul_le_mul_right _ (Nat.le_trans hcount hlt)
    rcases Nat.eq_or_lt_of_le hle with heq | hlt
    -- rounding up to the next power of two doubles the spacing
    · have hnext : roundUnits num den = 2 ^ ((num / den).log2 + 1) := by
        calc roundUnits num den = 2 ^ 53 * spacing (num / den) := heq
          _ = 2 ^ 52 * spacing (num / den) * 2 := by ring
          _ = 2 ^ ((num / den).log2 + 1) := by rw [← hpow, ← pow_succ]
      rw [spacing_eq, hnext, Nat.log2_two_pow]
      exact Nat.pow_dvd_pow 2 (Nat.sub_le _ _)
    · refine Nat.dvd_trans (spacing_dvd_spacing_of_log2 ?_) hdvd
      rcases Nat.eq_zero_or_pos (roundUnits num den) with hzero | hpos
      · rw [hzero]
        exact Nat.zero_le _
      · refine Nat.le_of_lt_succ ((Nat.log2_lt (by omega)).2 ?_)
        rw [pow_succ, hpow]
        omega

/-! ## 4. Dividing -/

/-- A quotient by one or more is no larger than the dividend. -/
theorem roundUnits_mul_le {one : Nat} (hu : Representable u) (hv : one ≤ v) (hpos : 0 < v) :
    roundUnits (u * one) v ≤ u := by
  have hle : u * one / v ≤ u :=
    Nat.div_le_of_le_mul (Nat.mul_comm v u ▸ Nat.mul_le_mul_left u hv)
  -- both are multiples of the spacing of the quotient, and less than one spacing apart
  obtain ⟨k, hk⟩ : spacing (u * one / v) ∣ u :=
    Nat.dvd_trans (spacing_dvd_spacing_of_log2 (log2_le_log2 hle)) (Nat.dvd_of_mod_eq_zero hu.2)
  obtain ⟨-, hhigh⟩ := roundUnits_bounds (u * one) hpos
  have hbound : 2 * roundUnits (u * one) v * v ≤ (2 * u + spacing (u * one / v)) * v := by
    calc 2 * roundUnits (u * one) v * v ≤ 2 * (u * one) + spacing (u * one / v) * v := hhigh
      _ ≤ 2 * (u * v) + spacing (u * one / v) * v :=
        Nat.add_le_add_right (Nat.mul_le_mul_left 2 (Nat.mul_le_mul_left u hv)) _
      _ = (2 * u + spacing (u * one / v)) * v := by ring
  have hhalf := Nat.le_of_mul_le_mul_right hbound hpos
  have hs := spacing_pos (u * one / v)
  rw [roundUnits] at hhalf ⊢
  generalize roundDiv (u * one) (v * spacing (u * one / v)) = q at *
  generalize spacing (u * one / v) = s at *
  refine Nat.not_lt.1 fun hlt => ?_
  rw [hk, Nat.mul_comm s k] at hlt hhalf
  have hkq : k + 1 ≤ q := Nat.lt_of_mul_lt_mul_right hlt
  have := Nat.mul_le_mul_right s hkq
  rw [Nat.add_mul] at this
  omega

/-- A positive whole number is not rounded below one. -/
theorem unitsPerOne_le_unitsOfNat {n : Nat} (hn : 0 < n) : unitsPerOne ≤ unitsOfNat n := by
  have hle : unitsPerOne ≤ n * unitsPerOne / 1 := by
    rw [Nat.div_one]
    exact Nat.le_mul_of_pos_left _ hn
  rw [unitsOfNat]
  generalize n * unitsPerOne = m at hle ⊢
  rw [← unitsPerOne_eq_pow] at hle ⊢
  exact pow_le_roundUnits Nat.one_pos (by decide +kernel) hle

/-- A power of ten is at least one. -/
theorem unitsPerOne_le_unitsOfPow10 (k : Nat) : unitsPerOne ≤ unitsOfPow10 k :=
  unitsPerOne_le_unitsOfNat (Nat.pow_pos (by decide))

theorem unitsOfPow10_pos (k : Nat) : 0 < unitsOfPow10 k :=
  Nat.lt_of_lt_of_le unitsPerOne_pos (unitsPerOne_le_unitsOfPow10 k)

theorem representable_divUnits (hu : Representable u) (k : Nat) :
    Representable (divUnits u (unitsOfPow10 k)) := by
  have hle := roundUnits_mul_le hu (unitsPerOne_le_unitsOfPow10 k) (unitsOfPow10_pos k)
  exact representable_roundUnits _ (unitsOfPow10_pos k) (Nat.lt_of_le_of_lt hle hu.1)

/-- **Dividing by a power of ten never leaves the magnitudes.** -/
theorem representable_divPow10 (hu : Representable u) (k : Nat) :
    Representable (Json.Numeral.divPow10 u k) := by
  fun_induction Json.Numeral.divPow10 u k with
  | case1 u k _ => exact representable_divUnits hu k
  | case2 => exact representable_zero
  | case3 u k _ _ ih => exact ih (representable_divUnits hu 308)

/-! ## 5. Multiplying -/

/-- A positive whole number has full length. -/
theorem pow_le_mul_unitsPerOne {n : Nat} (hn : 0 < n) : 2 ^ 52 ≤ n * unitsPerOne :=
  Nat.le_trans (by decide +kernel) (Nat.le_mul_of_pos_left unitsPerOne hn)

/-- A natural number that is rounded gains at most one part in `2 ^ 53`. -/
theorem unitsOfNat_rel (n : Nat) : 2 ^ 53 * unitsOfNat n ≤ (2 ^ 53 + 1) * (n * unitsPerOne) := by
  rcases Nat.eq_zero_or_pos n with rfl | hn
  · rw [unitsOfNat_zero]
    omega
  · have hlong : 2 ^ 52 ≤ n * unitsPerOne / 1 := by
      rw [Nat.div_one]
      exact pow_le_mul_unitsPerOne hn
    have hrel := roundUnits_rel Nat.one_pos hlong
    rwa [Nat.mul_one] at hrel

/-- A product of two numbers that are rounded first gains at most that part twice. -/
theorem unitsOfNat_mul_rel (m n : Nat) :
    2 ^ 106 * (unitsOfNat m * unitsOfNat n) ≤
      (2 ^ 53 + 1) ^ 2 * unitsPerOne * (m * n * unitsPerOne) := by
  have hm := unitsOfNat_rel m
  have hn := unitsOfNat_rel n
  generalize unitsOfNat m = f at hm ⊢
  generalize unitsOfNat n = p at hn ⊢
  calc 2 ^ 106 * (f * p) = (2 ^ 53 * f) * (2 ^ 53 * p) := by ring
    _ ≤ ((2 ^ 53 + 1) * (m * unitsPerOne)) * ((2 ^ 53 + 1) * (n * unitsPerOne)) :=
      Nat.mul_le_mul hm hn
    _ = (2 ^ 53 + 1) ^ 2 * unitsPerOne * (m * n * unitsPerOne) := by ring

/-- The product of a significand and a power of ten stays below the limit, though both are rounded
first, if the exact product is at most what rounds to a magnitude that is not among the three
greatest. -/
theorem mulUnits_lt {significand k : Nat} (hden : 0 < den)
    (hexact : significand * 10 ^ k * unitsPerOne * den ≤ num)
    (hu : roundUnits num den + 4 * topSpacing ≤ unitsLimit) :
    mulUnits (unitsOfNat significand) (unitsOfPow10 k) < unitsLimit := by
  have hone := unitsPerOne_pos
  have htop := topSpacing_pos
  have hlimit : roundUnits num den < unitsLimit := by omega
  have hrel : 2 ^ 106 * (unitsOfNat significand * unitsOfPow10 k) ≤
      (2 ^ 53 + 1) ^ 2 * unitsPerOne * (significand * 10 ^ k * unitsPerOne) :=
    unitsOfNat_mul_rel significand (10 ^ k)
  obtain ⟨hlow, -⟩ := roundUnits_bounds num hden
  have hspacing := spacing_le_topSpacing (div_lt_unitsLimit hden hlimit)
  have hnum : 2 * num ≤ (2 * roundUnits num den + topSpacing) * den :=
    Nat.le_trans hlow (Nat.mul_le_mul_right den (Nat.add_le_add_left hspacing _))
  rw [unitsLimit_eq] at hu
  generalize roundUnits num den = rounded at *
  generalize unitsOfNat significand = f at *
  generalize unitsOfPow10 k = p at *
  -- both roundings together gain less than three spacings at the top
  have hproduct : 2 ^ 106 * (f * p) * den ≤ (2 ^ 53 + 1) ^ 2 * unitsPerOne * num := by
    calc 2 ^ 106 * (f * p) * den
        ≤ (2 ^ 53 + 1) ^ 2 * unitsPerOne * (significand * 10 ^ k * unitsPerOne) * den :=
          Nat.mul_le_mul_right den hrel
      _ = (2 ^ 53 + 1) ^ 2 * unitsPerOne * (significand * 10 ^ k * unitsPerOne * den) := by ring
      _ ≤ (2 ^ 53 + 1) ^ 2 * unitsPerOne * num := Nat.mul_le_mul_left _ hexact
  have hbound :
      2 ^ 107 * (f * p) ≤ (2 ^ 53 + 1) ^ 2 * unitsPerOne * (2 * rounded + topSpacing) := by
    refine Nat.le_of_mul_le_mul_right ?_ hden
    calc 2 ^ 107 * (f * p) * den = 2 * (2 ^ 106 * (f * p) * den) := by ring
      _ ≤ 2 * ((2 ^ 53 + 1) ^ 2 * unitsPerOne * num) := Nat.mul_le_mul_left 2 hproduct
      _ = (2 ^ 53 + 1) ^ 2 * unitsPerOne * (2 * num) := by ring
      _ ≤ (2 ^ 53 + 1) ^ 2 * unitsPerOne * ((2 * rounded + topSpacing) * den) :=
        Nat.mul_le_mul_left _ hnum
      _ = (2 ^ 53 + 1) ^ 2 * unitsPerOne * (2 * rounded + topSpacing) * den := by ring
  have hroom : 2 * rounded + topSpacing ≤ (2 ^ 54 - 7) * topSpacing := by
    omega
  have hlt : (2 ^ 53 + 1) ^ 2 * unitsPerOne * (2 * rounded + topSpacing) <
      2 ^ 106 * ((2 ^ 54 - 1) * topSpacing * unitsPerOne) := by
    calc (2 ^ 53 + 1) ^ 2 * unitsPerOne * (2 * rounded + topSpacing)
        ≤ (2 ^ 53 + 1) ^ 2 * unitsPerOne * ((2 ^ 54 - 7) * topSpacing) :=
          Nat.mul_le_mul_left _ hroom
      _ = (2 ^ 53 + 1) ^ 2 * (2 ^ 54 - 7) * (topSpacing * unitsPerOne) := by ring
      _ < 2 ^ 106 * (2 ^ 54 - 1) * (topSpacing * unitsPerOne) :=
        Nat.mul_lt_mul_of_pos_right (by decide) (Nat.mul_pos htop hone)
      _ = 2 ^ 106 * ((2 ^ 54 - 1) * topSpacing * unitsPerOne) := by ring
  refine roundUnits_lt hone ?_
  rw [unitsLimit_eq]
  have hfinal : 2 * (f * p) < (2 ^ 54 - 1) * topSpacing * unitsPerOne := by
    omega
  calc 2 * (f * p) + topSpacing * unitsPerOne
      < (2 ^ 54 - 1) * topSpacing * unitsPerOne + topSpacing * unitsPerOne :=
        Nat.add_lt_add_right hfinal _
    _ = 2 * (2 ^ 53 * topSpacing) * unitsPerOne := by ring

end DocPath
