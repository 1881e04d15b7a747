import Mathlib.Tactic.Linarith
import Mathlib.Tactic.Ring
import DocPath.Proofs.Decimals
import DocPath.Proofs.RoundTrip

/-!
# Every number that is written is read

Reading a numeral rounds up to three times, so what is written for a finite number may be read as
one of its neighbours.  It is read, though: no rounding leads out of the magnitudes
(`exists_readBack_ofFinite`).  For a negative power of ten that is so because dividing by it goes
down.  For any other the digits gathered and the power of ten make no more than the decimal that was
written (`significand_mul_le`), and so their rounded product is a magnitude unless the number is one
of the three greatest (`mulUnits_lt`); those three are tried one by one (`greatestDecimals`).
-/

namespace DocPath

/-! ## 1. Gathering digits -/

namespace Json.Numeral

/-- What is gathered fits 64 bits, and with a factor of ten for every dropped digit it makes no more
than all digits do. -/
theorem gather_bounds {s : Nat} (hs : s < 2 ^ 64) (ds : List Char) :
    (gather s ds).1 < 2 ^ 64 ∧
      (gather s ds).1 * 10 ^ (gather s ds).2.length ≤ Nat.ofDigitChars 10 ds s := by
  induction ds generalizing s with
  | nil => simpa [gather] using hs
  | cons c cs ih =>
    rw [gather]
    split
    · next hnext => exact ih hnext
    · refine ⟨hs, ?_⟩
      rw [Nat.ofDigitChars_eq_ofDigitChars_zero, Nat.mul_comm]
      exact Nat.le_add_right _ _

/-- So many digits make less than the power of ten with so many zeros. -/
theorem ofDigitChars_lt {ds : List Char} (h : ∀ c ∈ ds, c.isDigit = true) (s : Nat) :
    Nat.ofDigitChars 10 ds s < 10 ^ ds.length * (s + 1) := by
  induction ds generalizing s with
  | nil => simp
  | cons c cs ih =>
    obtain ⟨hc, hcs⟩ := List.forall_mem_cons.1 h
    have hdigit : c.toNat - '0'.toNat ≤ 9 := by
      have hrange := Char.isDigit_iff_toNat.1 hc
      have hnine : '9'.toNat = '0'.toNat + 9 := rfl
      omega
    calc Nat.ofDigitChars 10 (c :: cs) s
        = Nat.ofDigitChars 10 cs (10 * s + (c.toNat - '0'.toNat)) := Nat.ofDigitChars_cons
      _ < 10 ^ cs.length * (10 * s + (c.toNat - '0'.toNat) + 1) := ih hcs _
      _ ≤ 10 ^ cs.length * (10 * (s + 1)) := Nat.mul_le_mul_left _ (by omega)
      _ = 10 ^ (c :: cs).length * (s + 1) := by
        rw [List.length_cons, pow_succ, Nat.mul_assoc]

variable {n : Numeral} {d : Decimal}

/-- All digits before the point are gathered. -/
theorem wholePart_of_writes (hn : n.Writes d) :
    n.wholePart = (Nat.ofDigitChars 10 n.whole 0, []) ∧ Nat.ofDigitChars 10 n.whole 0 < 2 ^ 64 := by
  have hlt : Nat.ofDigitChars 10 n.whole 0 < 2 ^ 64 := by
    calc Nat.ofDigitChars 10 n.whole 0 < 10 ^ n.whole.length * (0 + 1) :=
          ofDigitChars_lt hn.proper.isDigit_whole 0
      _ ≤ 10 ^ 16 * (0 + 1) :=
        Nat.mul_le_mul_right _ (Nat.pow_le_pow_right (by decide) hn.length_whole)
      _ < 2 ^ 64 := by decide
  exact ⟨gather_of_lt hlt, hlt⟩

theorem significand_lt (hn : n.Writes d) : n.significand < 2 ^ 64 := by
  obtain ⟨hwhole, hlt⟩ := wholePart_of_writes hn
  rw [significand, fractionPart, hwhole]
  exact (gather_bounds hlt n.fraction).1

/-- **The digits gathered and their power of ten make no more than the decimal.** -/
theorem significand_mul_le (hn : n.Writes d) {k : Nat} (hk : n.places + n.power = k) :
    n.significand * 10 ^ k * unitsPerOne * d.den ≤ d.num := by
  obtain ⟨hwhole, hlt⟩ := wholePart_of_writes hn
  obtain ⟨zeros, hdigits, hexponent⟩ := hn.value
  have hfraction : n.fractionPart = gather (Nat.ofDigitChars 10 n.whole 0) n.fraction := by
    rw [fractionPart, hwhole]
  have hgather := (gather_bounds hlt n.fraction).2
  rw [← Nat.ofDigitChars_append, hdigits, ← hfraction] at hgather
  rw [significand]
  rw [places, hwhole, List.length_nil] at hk
  generalize n.fractionPart.1 = gathered at hgather ⊢
  generalize n.fractionPart.2.length = dropped at hgather hk
  rw [Decimal.num, Decimal.den]
  have hsplit : k + (-d.exponent).toNat + zeros = dropped + d.exponent.toNat := by omega
  refine Nat.le_of_mul_le_mul_right ?_ (Nat.pow_pos (by decide) : 0 < 10 ^ zeros)
  calc gathered * 10 ^ k * unitsPerOne * 10 ^ (-d.exponent).toNat * 10 ^ zeros
      = gathered * 10 ^ (k + (-d.exponent).toNat + zeros) * unitsPerOne := by
        rw [pow_add, pow_add]
        ring
    _ = gathered * 10 ^ dropped * (10 ^ d.exponent.toNat * unitsPerOne) := by
      rw [hsplit, pow_add]
      ring
    _ ≤ d.digits * 10 ^ zeros * (10 ^ d.exponent.toNat * unitsPerOne) :=
      Nat.mul_le_mul_right _ hgather
    _ = d.digits * 10 ^ d.exponent.toNat * unitsPerOne * 10 ^ zeros := by ring

end Json.Numeral

/-! ## 2. Powers of ten -/

theorem exists_unitsLimit_le_pow10 : ∃ k ≤ 309, unitsLimit ≤ 10 ^ k * unitsPerOne :=
  ⟨309, Nat.le_refl _, by decide +kernel⟩

/-- A power of ten that makes no more than a magnitude has 308 zeros at most. -/
theorem le_308_of_pow10_le {k num den : Nat} (hden : 0 < den) (h : 10 ^ k * unitsPerOne * den ≤ num)
    (hlimit : roundUnits num den < unitsLimit) : k ≤ 308 := by
  obtain ⟨m, hm, hle⟩ := exists_unitsLimit_le_pow10
  refine Nat.le_of_lt_succ (Nat.not_le.1 fun hk => ?_)
  have hpow : 10 ^ m * unitsPerOne ≤ 10 ^ k * unitsPerOne :=
    Nat.mul_le_mul_right _ (Nat.pow_le_pow_right (by decide) (Nat.le_trans hm hk))
  have hquotient : 10 ^ k * unitsPerOne ≤ num / den := (Nat.le_div_iff_mul_le hden).2 h
  have hlt := div_lt_unitsLimit hden hlimit
  omega

namespace Decimal

variable {d : Decimal}

theorem den_pos (d : Decimal) : 0 < d.den := Nat.pow_pos (by decide)

/-- What does not round to zero has digits. -/
theorem digits_pos (h : 0 < d.units) : 0 < d.digits := by
  refine Nat.pos_of_ne_zero fun hzero => ?_
  rw [units, num, hzero, Nat.zero_mul, Nat.zero_mul, roundUnits_zero] at h
  omega

theorem pow_length_le {n : Nat} (hn : 0 < n) : 10 ^ ((Text.natDigits n).length - 1) ≤ n := by
  rcases Nat.lt_or_ge 1 (Text.natDigits n).length with hmore | hone
  · refine Nat.not_lt.1 fun hlt => ?_
    have hshort : (Text.natDigits n).length ≤ (Text.natDigits n).length - 1 :=
      (Nat.length_toDigits_le_iff (by decide) (Nat.sub_pos_of_lt hmore)).2 hlt
    omega
  · rw [Nat.sub_eq_zero_of_le hone]
    exact hn

/-- The place of the first digit is bounded. -/
theorem first_le (hd : 0 < d.digits) (hlimit : d.units < unitsLimit) : d.first ≤ 308 := by
  rcases Int.lt_or_le d.first 0 with hneg | hfirst
  · omega
  · have hlength := pow_length_le hd
    have hsplit : d.first.toNat + (-d.exponent).toNat =
        (Text.natDigits d.digits).length - 1 + d.exponent.toNat := by
      have hpos : 0 < (Text.natDigits d.digits).length := Nat.length_toDigits_pos
      rw [first] at *
      omega
    have hle : 10 ^ d.first.toNat * unitsPerOne * d.den ≤ d.num := by
      rw [num, den]
      calc 10 ^ d.first.toNat * unitsPerOne * 10 ^ (-d.exponent).toNat
          = 10 ^ (d.first.toNat + (-d.exponent).toNat) * unitsPerOne := by
            rw [pow_add]
            ring
        _ = 10 ^ ((Text.natDigits d.digits).length - 1) *
            (10 ^ d.exponent.toNat * unitsPerOne) := by
          rw [hsplit, pow_add]
          ring
        _ ≤ d.digits * (10 ^ d.exponent.toNat * unitsPerOne) := Nat.mul_le_mul_right _ hlength
        _ = d.digits * 10 ^ d.exponent.toNat * unitsPerOne := by ring
    have := le_308_of_pow10_le (den_pos d) hle hlimit
    omega

end Decimal

/-! ## 3. The number of a numeral -/

namespace Json.Numeral

variable {n : Numeral} {d : Decimal}

theorem mul_unitsPerOne_lt : 2 * (2 ^ 64 * unitsPerOne) + topSpacing < 2 * unitsLimit := by
  decide +kernel

/-- A significand is rounded to a magnitude. -/
theorem representable_unitsOfNat {s : Nat} (hs : s < 2 ^ 64) : Representable (unitsOfNat s) := by
  refine representable_roundUnits _ Nat.one_pos (roundUnits_lt Nat.one_pos ?_)
  have hle : s * unitsPerOne ≤ 2 ^ 64 * unitsPerOne := Nat.mul_le_mul_right _ (Nat.le_of_lt hs)
  have hlt := mul_unitsPerOne_lt
  rw [Nat.mul_one, Nat.mul_one]
  omega

/-- Scaling the significand leads to a magnitude, if the decimal does not round to one of the three
greatest. -/
theorem exists_scale? (hn : n.Writes d) (hlimit : d.units + 4 * topSpacing ≤ unitsLimit) :
    ∃ u, scale? (unitsOfNat n.significand) (n.places + n.power) = some u ∧ Representable u := by
  rcases Int.lt_or_le (n.places + n.power) 0 with hneg | hpos
  · exact ⟨_, if_pos hneg, representable_divPow10 (representable_unitsOfNat (significand_lt hn)) _⟩
  · obtain ⟨k, hk⟩ := Int.eq_ofNat_of_zero_le hpos
    rcases Nat.eq_zero_or_pos n.significand with hzero | hs
    · rw [hzero, unitsOfNat_zero]
      exact ⟨0, scale?_zero _, representable_zero⟩
    · have hexact := significand_mul_le hn hk
      have hle : k ≤ 308 := by
        have hone : 10 ^ k ≤ n.significand * 10 ^ k := Nat.le_mul_of_pos_left _ hs
        have hpow : 10 ^ k * unitsPerOne * d.den ≤ d.num :=
          Nat.le_trans (Nat.mul_le_mul_right _ (Nat.mul_le_mul_right _ hone)) hexact
        have htop := topSpacing_pos
        refine le_308_of_pow10_le d.den_pos hpow ?_
        rw [← Decimal.units]
        omega
      rw [hk, scale?, if_neg (by omega), Int.natAbs_natCast, if_pos hle]
      refine ⟨_, rfl, representable_roundUnits _ unitsPerOne_pos ?_⟩
      exact mulUnits_lt d.den_pos hexact hlimit

/-- **The numeral of a decimal denotes a number**, unless the decimal rounds to one of the three
greatest magnitudes. -/
theorem exists_real? (hn : n.Writes d) (hlimit : d.units + 4 * topSpacing ≤ unitsLimit) :
    ∃ y, n.real? (n.places + n.power) = some y := by
  obtain ⟨u, hu, hrepresentable⟩ := exists_scale? hn hlimit
  rw [real?, hu, Option.bind_some, finite?, dif_pos hrepresentable]
  exact ⟨_, rfl⟩

theorem exponentValue_of_lt {ds : List Char} {e : Nat} (h : Nat.ofDigitChars 10 ds e < 2 ^ 31) :
    exponentValue e ds = .ok (Nat.ofDigitChars 10 ds e) := by
  induction ds generalizing e with
  | nil => rfl
  | cons c cs ih =>
    rw [Nat.ofDigitChars_cons] at h ⊢
    have hnext : 10 * e + digitValue c < Nat.pow 2 31 := Nat.lt_of_le_of_lt (le_ofDigitChars cs _) h
    rw [exponentValue]
    simp only [if_pos hnext]
    exact ih h

theorem eq_of_exponentValue {ds : List Char} {e k : Nat} (h : exponentValue e ds = .ok k) :
    k = Nat.ofDigitChars 10 ds e := by
  induction ds generalizing e with
  | nil => exact (Except.ok.inj h).symm
  | cons c cs ih =>
    rw [exponentValue] at h
    split at h
    · exact ih h
    · cases h

/-- Where the number can be made, the numeral has a value, if its exponent fits or is negative. -/
theorem exists_value (hreal : ∃ y, n.real? (n.places + n.power) = some y)
    (hpower : n.power < 2 ^ 31) : ∃ y, n.value = .ok y := by
  obtain ⟨y, hy⟩ := hreal
  rw [value]
  cases he : n.exponent? with
  | none =>
    have hzero : n.power = 0 := by rw [power, he]
    rw [hzero, Int.add_zero] at hy
    simp only
    split
    · next hintegral =>
      obtain ⟨hfraction, hwhole⟩ := hintegral
      have hplaces : n.places = 0 := by
        simp [places, hwhole, hfraction, fractionPart, gather]
      rw [hplaces] at hy
      rw [integral?, hy]
      split
      · split
        · exact ⟨_, rfl⟩
        · exact ⟨_, rfl⟩
      · exact ⟨_, rfl⟩
    · rw [hy]
      exact ⟨_, rfl⟩
  | some e =>
    rw [power, he] at hy hpower
    simp only at hy hpower ⊢
    cases hexponent : exponentValue 0 e.digits with
    | ok k =>
      rw [eq_of_exponentValue hexponent]
      simp only [hy]
      exact ⟨_, rfl⟩
    | error unread =>
      have hnegative : e.negative = true := by
        refine Decidable.byContradiction fun hplus => ?_
        rw [if_neg hplus] at hpower
        cases hexponent.symm.trans (exponentValue_of_lt (by omega))
      simp only [hnegative, not_true_eq_false, and_false, if_false, finite?,
        dif_pos representable_zero]
      exact ⟨_, rfl⟩

end Json.Numeral

/-! ## 4. The greatest magnitudes -/

theorem half_unitsLimit_eq_pow : 2 ^ (unitsLimit.log2 - 1) = 2 ^ 52 * topSpacing := by
  decide +kernel

/-- A magnitude is one of the three greatest, or the fourth greatest is not below it. -/
theorem top_cases {u : Nat} (hu : Representable u) :
    u + 4 * topSpacing ≤ unitsLimit ∨ ∃ k ∈ [1, 2, 3], u = unitsLimit - k * topSpacing := by
  rcases Nat.lt_or_ge unitsLimit (u + 4 * topSpacing) with htop | hlow
  · refine .inr ?_
    obtain ⟨hlimit, hmod⟩ := hu
    have hlog : u.log2 = unitsLimit.log2 - 1 := by
      have hpos : u ≠ 0 := by
        rintro rfl
        exact absurd htop (by decide +kernel)
      have hlow : unitsLimit.log2 - 1 ≤ u.log2 := by
        rw [Nat.le_log2 hpos, half_unitsLimit_eq_pow]
        rw [unitsLimit_eq] at htop
        omega
      have hhigh : u.log2 < unitsLimit.log2 :=
        (Nat.log2_lt hpos).2 (Nat.lt_of_lt_of_eq hlimit unitsLimit_eq_pow.symm)
      generalize unitsLimit.log2 = top at hlow hhigh ⊢
      omega
    have hsub (l : Nat) : l - 1 - 52 = l - 53 := Nat.sub_sub l 1 52
    rw [spacing_eq, hlog, hsub, topSpacing_eq_pow] at hmod
    rw [unitsLimit_eq] at htop hlimit ⊢
    generalize topSpacing = top at hmod htop hlimit ⊢
    obtain ⟨m, rfl⟩ := Nat.dvd_of_mod_eq_zero hmod
    have hm : m < 2 ^ 53 := by
      rw [Nat.mul_comm] at hlimit
      exact Nat.lt_of_mul_lt_mul_right hlimit
    have hm' : 2 ^ 53 < m + 4 := by
      rw [Nat.mul_comm top, ← Nat.add_mul] at htop
      exact Nat.lt_of_mul_lt_mul_right htop
    refine ⟨2 ^ 53 - m, ?_, ?_⟩
    · simp
      omega
    · rw [← Nat.sub_mul, Nat.sub_sub_self (Nat.le_of_lt hm), Nat.mul_comm]
  · exact .inl hlow

namespace Decimal

variable {d : Decimal} {u : Nat} {e : Int}

/-- The decimal is further away from `u` units than half the greatest spacing. -/
def FarFrom (u : Nat) (d : Decimal) : Prop :=
  2 * d.num + topSpacing * d.den < 2 * u * d.den ∨ (2 * u + topSpacing) * d.den < 2 * d.num

instance (u : Nat) (d : Decimal) : Decidable (d.FarFrom u) :=
  inferInstanceAs (Decidable (_ ∨ _))

theorem units_ne_of_farFrom (hu : u < unitsLimit) (h : d.FarFrom u) : d.units ≠ u := by
  rintro rfl
  obtain ⟨hlow, hhigh⟩ := roundUnits_bounds d.num d.den_pos
  have hspacing : spacing (d.num / d.den) * d.den ≤ topSpacing * d.den :=
    Nat.mul_le_mul_right _ (spacing_le_topSpacing (div_lt_unitsLimit d.den_pos hu))
  rw [FarFrom, Nat.add_mul] at h
  rw [← units, Nat.add_mul] at hlow
  rw [← units] at hhigh
  omega

/-- The search goes past the grids whose neighbours of the magnitude are far from it. -/
theorem search_of_farFrom {steps tries : Nat} {first : Int} (hu : u < unitsLimit)
    (hfar : ∀ i < steps, (floor (first - i) u).FarFrom u ∧ (floor (first - i) u).succ.FarFrom u)
    (hfound : onGrid? (first - steps) u = some d) (htries : steps ≤ tries) :
    search u tries first = some d := by
  induction steps generalizing tries first with
  | zero =>
    rw [Nat.cast_zero, Int.sub_zero] at hfound
    cases tries with
    | zero => exact hfound
    | succ tries =>
      rw [search, hfound]
      rfl
  | succ steps ih =>
    cases tries with
    | zero => cases htries
    | succ tries =>
      obtain ⟨hfloor, hsucc⟩ := hfar 0 (Nat.succ_pos steps)
      rw [Nat.cast_zero, Int.sub_zero] at hfloor hsucc
      have hnone : onGrid? first u = none := by
        unfold onGrid?
        simp only [if_neg (units_ne_of_farFrom hu hfloor), if_neg (units_ne_of_farFrom hu hsucc)]
      have hnext : search u (tries + 1) first = search u tries (first - 1) := by
        rw [search, hnone]
        rfl
      rw [hnext]
      have hshift (i : Nat) : first - 1 - i = first - (i + 1 : Nat) := by omega
      refine ih ?_ ?_ (Nat.le_of_succ_le_succ htries)
      · intro i hi
        rw [hshift]
        exact hfar (i + 1) (Nat.succ_lt_succ hi)
      · rw [hshift]
        exact hfound

end Decimal

/-- The decimals that are written for the three greatest magnitudes. -/
def greatestDecimals : List Decimal :=
  [⟨17976931348623157, 292⟩, ⟨17976931348623155, 292⟩, ⟨17976931348623153, 292⟩]

theorem greatest_facts : ∀ k ∈ [1, 2, 3],
    unitsLimit - k * topSpacing < unitsLimit ∧
      unitsLimit - k * topSpacing ≠ 0 ∧
      Decimal.ceiling (unitsLimit - k * topSpacing) = 309 ∧
      (∀ i : Nat, i < 17 →
        (Decimal.floor (309 - i) (unitsLimit - k * topSpacing)).FarFrom
          (unitsLimit - k * topSpacing) ∧
        (Decimal.floor (309 - i) (unitsLimit - k * topSpacing)).succ.FarFrom
          (unitsLimit - k * topSpacing)) ∧
      ∃ d ∈ greatestDecimals,
        Decimal.onGrid? (309 - (17 : Nat)) (unitsLimit - k * topSpacing) = some d := by
  decide +kernel

theorem shortest_mem_greatestDecimals {k : Nat} (hk : k ∈ [1, 2, 3]) :
    Decimal.shortest (unitsLimit - k * topSpacing) ∈ greatestDecimals := by
  obtain ⟨hlimit, hpos, hceiling, hfar, d, hd, hfound⟩ := greatest_facts k hk
  generalize unitsLimit - k * topSpacing = u at *
  rw [Decimal.shortest, if_neg hpos, hceiling,
    Decimal.search_of_farFrom hlimit hfar hfound (by decide)]
  exact hd

theorem value_of_mem_greatestDecimals : ∀ d ∈ greatestDecimals, ∀ negative,
    (d.numeral negative).value.toBool = true := by
  decide +kernel

/-! ## 5. Finite numbers -/

namespace Json

/-- The numeral of a magnitude that is not zero has a value. -/
theorem exists_value_shortest {u : Nat} (hu : Representable u) (hpos : 0 < u) (negative : Bool) :
    ((Decimal.shortest u).numeral negative).Proper ∧
      ∃ y, ((Decimal.shortest u).numeral negative).value = .ok y := by
  have hunits := Decimal.units_shortest hu
  have hdigits : 0 < (Decimal.shortest u).digits := Decimal.digits_pos (by rwa [hunits])
  have hwrites := Decimal.writes_numeral hdigits negative
  refine ⟨hwrites.proper, ?_⟩
  rcases top_cases hu with hlow | ⟨k, hk, htop⟩
  · have hlimit := hu.1
    rw [← hunits] at hlow hlimit
    refine Numeral.exists_value (Numeral.exists_real? hwrites hlow) ?_
    have hfirst := Decimal.first_le hdigits hlimit
    have hpower := hwrites.power_le
    omega
  · have hmem := shortest_mem_greatestDecimals hk
    rw [← htop] at hmem
    have hvalue := value_of_mem_greatestDecimals _ hmem negative
    cases hfound : ((Decimal.shortest u).numeral negative).value with
    | ok y => exact ⟨y, rfl⟩
    | error _ =>
      rw [hfound] at hvalue
      cases hvalue

/-- What is written for a finite number is read as the value of its numeral. -/
theorem Number.readBack_real {x : Finite} {y : Number}
    (hproper : ((Decimal.shortest x.units).numeral x.negative).Proper)
    (hy : ((Decimal.shortest x.units).numeral x.negative).value = .ok y) :
    (Number.real x).ReadBack y := by
  intro rest hrest
  have hchars : (Number.real x).chars = ((Decimal.shortest x.units).numeral x.negative).text := by
    rw [Decimal.text_numeral, Number.chars, Finite.chars]
    cases x.negative with
    | true => rfl
    | false => rfl
  rw [hchars, Numeral.readValue, Numeral.read_text hproper hrest]
  simp only [hy]

/-- What is written for a finite number other than zero is read as some number. -/
theorem Number.exists_readBack_real {x : Finite} (hpos : 0 < x.units) :
    ∃ y, (Number.real x).ReadBack y := by
  obtain ⟨hproper, y, hy⟩ := exists_value_shortest x.representable hpos x.negative
  exact ⟨y, Number.readBack_real hproper hy⟩

/-- **What is written for a finite number is read**, as that number or as another. -/
theorem Number.exists_readBack_ofFinite (x : Finite) : ∃ y, (Number.ofFinite x).ReadBack y := by
  rcases Nat.eq_zero_or_pos x.units with hzero | hpos
  · have hinteger : x.IsInteger 0 := ⟨by simp [hzero], by simp⟩
    exact ⟨_, Number.readBack_ofFinite hinteger (by decide) (by decide)⟩
  · cases hinteger : integer? x with
    | some n =>
      obtain ⟨hn, hlow, hhigh, -⟩ := integer?_eq_some_iff.1 hinteger
      exact ⟨_, Number.readBack_ofFinite hn hlow hhigh⟩
    | none =>
      have hform : Number.ofFinite x = .real x := by rw [Number.ofFinite, hinteger]
      rw [hform]
      exact Number.exists_readBack_real hpos

end Json

end DocPath
