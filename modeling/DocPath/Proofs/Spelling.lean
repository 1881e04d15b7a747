import DocPath.Proofs.Shortest

/-!
# What a shortest decimal is read from

The text of a shortest decimal spells its digits and its power of ten, nothing more and nothing less
(`spells_numeral`).  The only decimals with zeros behind their digits are written for integers, and
integers that 64 bits hold are not written as decimals at all (`integer?_ne_none`).

As the digits fit 64 bits, all of them are gathered, and the power of ten is that of the decimal.
So a number that is no such integer is read as its rounded digits, scaled by that power
(`exists_readBack_scale?`).
-/

namespace DocPath

/-! ## 1. Whole numbers that are magnitudes -/

/-- A number of at most 53 bits, with zero bits behind them, is not rounded. -/
theorem representable_mul_pow {a j : Nat} (ha : a < 2 ^ 53) (hlimit : a * 2 ^ j < unitsLimit) :
    Representable (a * 2 ^ j) := by
  refine ⟨hlimit, Nat.mod_eq_zero_of_dvd (Nat.dvd_trans ?_ (Nat.dvd_mul_left _ a))⟩
  rw [spacing_eq]
  refine Nat.pow_dvd_pow 2 (Nat.sub_le_iff_le_add'.2 ?_)
  rcases Nat.eq_zero_or_pos a with rfl | hpos
  · rw [Nat.zero_mul]
    exact Nat.zero_le _
  · have hne : a * 2 ^ j ≠ 0 := Nat.ne_of_gt (Nat.mul_pos hpos (Nat.two_pow_pos j))
    refine Nat.le_of_lt_succ ((Nat.log2_lt hne).2 ?_)
    calc a * 2 ^ j < 2 ^ 53 * 2 ^ j := Nat.mul_lt_mul_of_pos_right ha (Nat.two_pow_pos j)
      _ = 2 ^ (52 + j + 1) := by
        rw [← pow_add]
        congr 1
        omega

/-- A whole number of at most 53 bits is not rounded. -/
theorem unitsOfNat_of_lt {m : Nat} (hm : m < 2 ^ 53) : unitsOfNat m = m * unitsPerOne := by
  refine roundUnits_of_representable ?_
  have hlimit : m * unitsPerOne < unitsLimit := by
    have htop := Json.Numeral.mul_unitsPerOne_lt
    have hle : m * unitsPerOne ≤ 2 ^ 64 * unitsPerOne :=
      Nat.mul_le_mul_right _ (Nat.le_trans (Nat.le_of_lt hm) (by decide))
    omega
  rw [← unitsPerOne_eq_pow] at hlimit ⊢
  exact representable_mul_pow hm hlimit

/-- A whole number is rounded to a whole number. -/
theorem dvd_unitsOfNat (m : Nat) : unitsPerOne ∣ unitsOfNat m := by
  rcases Nat.lt_or_ge m (2 ^ 53) with hshort | hlong
  · rw [unitsOfNat_of_lt hshort]
    exact Nat.dvd_mul_left _ _
  · refine Nat.dvd_trans ?_ (Nat.dvd_mul_left _ _ : spacing (m * unitsPerOne / 1) ∣ _)
    have hpow : 2 ^ (53 + unitsPerOne.log2) ≤ m * unitsPerOne := by
      rw [pow_add, unitsPerOne_eq_pow]
      exact Nat.mul_le_mul_right _ hlong
    have hlog : 53 + unitsPerOne.log2 ≤ (m * unitsPerOne).log2 := by
      refine (Nat.le_log2 ?_).2 hpow
      exact Nat.ne_of_gt (Nat.lt_of_lt_of_le (Nat.two_pow_pos _) hpow)
    rw [Nat.div_one, spacing_eq]
    generalize (m * unitsPerOne).log2 = length at hlog
    rw [← unitsPerOne_eq_pow]
    exact Nat.pow_dvd_pow 2 (by omega)

/-- A number that a whole number below `10 ^ 16` rounds to is written as an integer. -/
theorem Json.integer?_ne_none {x : Finite} {m : Nat} (hpos : 0 < x.units) (hm : m < 10 ^ 16)
    (hx : x.units = unitsOfNat m) : integer? x ≠ none := by
  obtain ⟨k, hk⟩ := dvd_unitsOfNat m
  rw [← hx, Nat.mul_comm] at hk
  have hbound : 2 ^ 53 * k ≤ (2 ^ 53 + 1) * m := by
    have hrel := unitsOfNat_rel m
    rw [← hx, hk, ← Nat.mul_assoc, ← Nat.mul_assoc] at hrel
    exact Nat.le_of_mul_le_mul_right hrel unitsPerOne_pos
  have hkpos : 0 < k := by
    refine Nat.pos_of_ne_zero ?_
    rintro rfl
    rw [Nat.zero_mul] at hk
    omega
  have hinteger : integer? x = some (if x.negative then -(k : Int) else k) := by
    refine integer?_eq_some_iff.2 ⟨⟨?_, ?_⟩, ?_, ?_, ?_⟩
    · rw [hk]
      split <;> simp
    all_goals split <;> omega
  rw [hinteger]
  exact Option.some_ne_none _

namespace Decimal

open Text (natDigits)
open Json

variable {d : Decimal}

/-! ## 2. Digits and exponent -/

/-- The decimal is written with all its places, and they end before the point. -/
def IsWhole (d : Decimal) : Prop :=
  0 ≤ d.first ∧ d.first ≤ greatestPlain ∧ (natDigits d.digits).length ≤ d.first.toNat + 1

/-- Such a decimal is a whole number below `10 ^ 16`. -/
theorem exists_of_isWhole (h : d.IsWhole) : ∃ m < 10 ^ 16, d.units = unitsOfNat m := by
  obtain ⟨hfirst, hplain, hlength⟩ := h
  rw [greatestPlain] at hplain
  rw [first] at hfirst hplain hlength
  have hnum : d.num = d.digits * Nat.pow 10 d.exponent.toNat * unitsPerOne := rfl
  have hden : d.den = 1 := by
    have hexponent : (-d.exponent).toNat = 0 := by omega
    exact congrArg (Nat.pow 10) hexponent
  refine ⟨d.digits * Nat.pow 10 d.exponent.toNat, ?_, by rw [units, hnum, hden, unitsOfNat]⟩
  have hdigits : d.digits < 10 ^ (natDigits d.digits).length :=
    (Nat.length_toDigits_le_iff (by decide) Nat.length_toDigits_pos).1 (Nat.le_refl _)
  calc d.digits * 10 ^ d.exponent.toNat
      < 10 ^ (natDigits d.digits).length * 10 ^ d.exponent.toNat :=
        Nat.mul_lt_mul_of_pos_right hdigits (Nat.pow_pos (by decide))
    _ = 10 ^ ((natDigits d.digits).length + d.exponent.toNat) := (pow_add _ _ _).symm
    _ ≤ 10 ^ 16 := Nat.pow_le_pow_right (by decide) (by omega)

end Decimal

namespace Json.Numeral

open Text (natDigits)

variable {n : Numeral} {d : Decimal}

/-- The digits of the numeral are those of the decimal and its power of ten is that of the last
digit.  If it has no exponent, it has a point. -/
structure Spells (n : Numeral) (d : Decimal) : Prop where
  digits : Nat.ofDigitChars 10 (n.whole ++ n.fraction) 0 = d.digits
  exponent : n.power - n.fraction.length = d.exponent
  fraction_ne_nil : n.exponent? = none → n.fraction ≠ []
  exponent_digits : ∀ e ∈ n.exponent?, Nat.ofDigitChars 10 e.digits 0 = d.first.natAbs

/-- Digits that are cut in two and have an exponent or go on behind the point. -/
theorem spells_cut {place : Nat} {negative : Bool} {e? : Option Exponent}
    (hpower :
      power ⟨negative, (natDigits d.digits).take place, (natDigits d.digits).drop place, e?⟩ =
        d.exponent + ((natDigits d.digits).length - place : Nat))
    (hfraction : e? = none → place < (natDigits d.digits).length)
    (he : ∀ e ∈ e?, Nat.ofDigitChars 10 e.digits 0 = d.first.natAbs) :
    Spells ⟨negative, (natDigits d.digits).take place, (natDigits d.digits).drop place, e?⟩ d where
  digits := by
    rw [Decimal.ofDigitChars_cut, pow_zero, Nat.mul_one]
  exponent := by
    rw [hpower, List.length_drop]
    omega
  fraction_ne_nil h := by
    rw [Ne, List.drop_eq_nil_iff]
    exact Nat.not_le.2 (hfraction h)
  exponent_digits := he

theorem spells_below_one (hfirst : d.first < 0) (negative : Bool) :
    Spells ⟨negative, ['0'],
      List.replicate (-d.first - 1).toNat '0' ++ natDigits d.digits, none⟩ d where
  digits := by
    simp [Nat.ofDigitChars_append, Nat.ofDigitChars_cons, Nat.ofDigitChars_replicate_zero,
      natDigits]
  exponent := by
    simp only [power, List.length_append, List.length_replicate]
    rw [Decimal.first] at hfirst ⊢
    omega
  fraction_ne_nil _ := by simp [natDigits]
  exponent_digits := by simp

/-- **What is written for a decimal spells it**, unless it is a whole number with all its places. -/
theorem spells_numeral (hd : ¬ d.IsWhole) (negative : Bool) : (d.numeral negative).Spells d := by
  have hlength : 0 < (natDigits d.digits).length := Nat.length_toDigits_pos
  unfold Decimal.numeral
  simp only
  split
  · next hplain =>
    split
    · next hfirst => exact spells_below_one hfirst negative
    · next hfirst =>
      have hfirst : 0 ≤ d.first := Int.not_lt.1 hfirst
      split
      · next hshort => exact absurd ⟨hfirst, hplain.2, hshort⟩ hd
      · next hlong =>
        refine spells_cut ?_ (fun _ => Nat.not_le.1 hlong) (by simp)
        simp only [power]
        rw [Decimal.first] at *
        omega
  · refine spells_cut ?_ (fun h => absurd h (Option.some_ne_none _)) ?_
    · rw [Decimal.power_scientific, Decimal.first]
      omega
    · rintro e ⟨⟩
      exact Nat.ofDigitChars_ten_toDigits

/-! ## 3. The value -/

/-- Digits that fit 64 bits are all gathered. -/
theorem significand_of_spells (hn : n.Spells d) (hdigits : d.digits < 2 ^ 64) :
    n.significand = d.digits ∧ n.places + n.power = d.exponent := by
  have hgather := hn.digits
  rw [Nat.ofDigitChars_append] at hgather
  have hwhole : n.wholePart = (Nat.ofDigitChars 10 n.whole 0, []) := by
    refine gather_of_lt (Nat.lt_of_le_of_lt ?_ hdigits)
    rw [← hgather]
    exact le_ofDigitChars _ _
  have hfraction : n.fractionPart = (d.digits, []) := by
    rw [fractionPart, hwhole, ← hgather]
    exact gather_of_lt (by rwa [hgather])
  refine ⟨by rw [significand, hfraction], ?_⟩
  rw [places, hwhole, hfraction, ← hn.exponent, List.length_nil]
  omega

/-- **A numeral that spells a decimal is read as its digits, scaled.** -/
theorem value_of_spells (hn : n.Spells d) (hdigits : d.digits < 2 ^ 64)
    (hfirst : d.first.natAbs < 2 ^ 31) : n.value = (n.real? d.exponent).elim (.error []) .ok := by
  obtain ⟨-, hplaces⟩ := significand_of_spells hn hdigits
  rw [value]
  cases he : n.exponent? with
  | none =>
    have hpower : n.power = 0 := by rw [power, he]
    rw [hpower, Int.add_zero] at hplaces
    simp only [hn.fraction_ne_nil he, false_and, if_false, hplaces]
  | some e =>
    have hdigits := hn.exponent_digits e he
    rw [power, he] at hplaces
    simp only [hdigits] at hplaces
    have hvalue : exponentValue 0 e.digits = .ok d.first.natAbs := by
      rw [← hdigits]
      exact exponentValue_of_lt (by rwa [hdigits])
    simp only [hvalue, hplaces]

/-- A number that is made with a fraction or an exponent has the sign of the numeral. -/
theorem exists_of_real? {e : Int} {y : Number} (h : n.real? e = some y) :
    ∃ z : Finite, y = .real z ∧ z.negative = n.negative ∧
      scale? (unitsOfNat n.significand) e = some z.units := by
  rw [real?, Option.map_eq_some_iff] at h
  obtain ⟨z, hz, rfl⟩ := h
  obtain ⟨u, hu, hfinite⟩ := Option.bind_eq_some_iff.1 hz
  rw [finite?, Option.dite_none_right_eq_some] at hfinite
  obtain ⟨hrepresentable, hz⟩ := hfinite
  cases hz
  exact ⟨_, rfl, rfl, hu⟩

end Json.Numeral

/-! ## 4. Numbers -/

namespace Json

open Numeral (scale?)

theorem negative_numeral (negative : Bool) (d : Decimal) :
    (d.numeral negative).negative = negative := by
  unfold Decimal.numeral
  simp only
  split
  · split
    · rfl
    · split <;> rfl
  · rfl

/-- **A number that is not written as an integer is read back as its shortest digits, rounded and
scaled**, with its sign. -/
theorem exists_readBack_scale? {x : Finite} (hpos : 0 < x.units) (hinteger : integer? x = none) :
    ∃ y : Finite, (Number.real x).ReadBack (.real y) ∧ y.negative = x.negative ∧
      scale? (unitsOfNat (Decimal.shortest x.units).digits) (Decimal.shortest x.units).exponent =
        some y.units := by
  obtain ⟨hproper, y, hy⟩ := exists_value_shortest x.representable hpos x.negative
  have hread := Number.readBack_real hproper hy
  obtain ⟨hdigits, hexponent⟩ := Decimal.shortest_bounds x.representable hpos
  have hunits := Decimal.units_shortest x.representable
  generalize Decimal.shortest x.units = d at *
  have hwhole : ¬ d.IsWhole := by
    intro hwhole
    obtain ⟨m, hm, hround⟩ := Decimal.exists_of_isWhole hwhole
    exact integer?_ne_none hpos hm (hunits.symm.trans hround) hinteger
  have hspells := Numeral.spells_numeral hwhole x.negative
  have hfirst : d.first.natAbs < 2 ^ 31 := by
    have hhigh := Decimal.first_le (Decimal.digits_pos (by rwa [hunits]))
      (hunits ▸ x.representable.1)
    have hlength : 0 < (Text.natDigits d.digits).length := Nat.length_toDigits_pos
    have hlow : -324 ≤ d.first := by
      rw [Decimal.first]
      omega
    omega
  rw [Numeral.value_of_spells hspells hdigits hfirst] at hy
  cases hreal : (d.numeral x.negative).real? d.exponent with
  | none =>
    rw [hreal] at hy
    cases hy
  | some z =>
    rw [hreal] at hy
    cases hy
    obtain ⟨w, rfl, hnegative, hscale⟩ := Numeral.exists_of_real? hreal
    rw [(Numeral.significand_of_spells hspells hdigits).1] at hscale
    rw [negative_numeral] at hnegative
    exact ⟨w, hread, hnegative, hscale⟩

end Json

end DocPath
