import DocPath.Number.Bits
import DocPath.Proofs.Spelling

/-!
# Numbers and their bits

The numbers here are those of the 64-bit format, no more and no fewer, but for what is no number:
every number has bits and is the number with these bits (`ofBits_of_toBits?`), and bits that mean
some number are the bits of that number (`toBits?_ofBits`).  A number with 32 bits is one with 64
bits too, so nothing is rounded when it is taken for one (`ofBits32_eq_finite`).

All of it rests on the magnitude that two fields stand for (`unitsOfFields`).  The two fields one
behind the other are the bits of this magnitude, because the leading bit of a full-length magnitude,
which is not written, carries into the exponent field (`magnitudeBits_unitsOfFields`).
-/

namespace DocPath.Double

variable {width exponent fraction u j : Nat} {bits : UInt64} {x : Double}

/-! ## 1. Magnitudes and their fields -/

/-- The magnitude with these fields, in units of the least one of the format. -/
def unitsOfFields (width exponent fraction : Nat) : Nat :=
  if exponent = 0 then fraction else (2 ^ width + fraction) * 2 ^ (exponent - 1)

theorem log2_unitsLimit : unitsLimit.log2 = 2098 := by decide +kernel

theorem unitsOfFields_lt (hf : fraction < 2 ^ width) :
    unitsOfFields width exponent fraction < 2 ^ (width + exponent) := by
  cases exponent with
  | zero => exact hf
  | succ k =>
    rw [unitsOfFields, if_neg (Nat.succ_ne_zero k), Nat.add_sub_cancel]
    calc (2 ^ width + fraction) * 2 ^ k < (2 ^ width + 2 ^ width) * 2 ^ k :=
          Nat.mul_lt_mul_of_pos_right (by omega) (Nat.two_pow_pos k)
      _ = 2 ^ (width + (k + 1)) := by ring

/-- Fields of a format that is no wider than 64 bits stand for a magnitude. -/
theorem representable_unitsOfFields (hwidth : width ≤ 52) (hsize : width + exponent + j ≤ 2098)
    (hf : fraction < 2 ^ width) :
    Representable (unitsOfFields width exponent fraction * 2 ^ j) := by
  rw [← log2_unitsLimit] at hsize
  have hlimit : unitsOfFields width exponent fraction * 2 ^ j < unitsLimit := by
    calc unitsOfFields width exponent fraction * 2 ^ j < 2 ^ (width + exponent) * 2 ^ j :=
          Nat.mul_lt_mul_of_pos_right (unitsOfFields_lt hf) (Nat.two_pow_pos j)
      _ = 2 ^ (width + exponent + j) := (pow_add _ _ _).symm
      _ ≤ 2 ^ unitsLimit.log2 := Nat.pow_le_pow_right (by decide) hsize
      _ = unitsLimit := unitsLimit_eq_pow
  have hpow : 2 ^ width ≤ 2 ^ 52 := Nat.pow_le_pow_right (by decide) hwidth
  unfold unitsOfFields at hlimit ⊢
  split at hlimit
  · next hzero =>
    rw [if_pos hzero]
    exact representable_mul_pow (by omega) hlimit
  · next hpos =>
    rw [if_neg hpos, Nat.mul_assoc, ← pow_add]
    rw [Nat.mul_assoc, ← pow_add] at hlimit
    exact representable_mul_pow (by omega) hlimit

/-- The length of a magnitude with a leading bit that is not written. -/
theorem log2_unitsOfFields_succ (hf : fraction < 2 ^ 52) (k : Nat) :
    (unitsOfFields 52 (k + 1) fraction).log2 = 52 + k := by
  have hlt : _ < 2 ^ (52 + (k + 1)) := unitsOfFields_lt hf
  have hle : 2 ^ (52 + k) ≤ unitsOfFields 52 (k + 1) fraction := by
    rw [unitsOfFields, if_neg (Nat.succ_ne_zero k), Nat.add_sub_cancel, pow_add]
    exact Nat.mul_le_mul_right _ (Nat.le_add_right _ _)
  have hne : unitsOfFields 52 (k + 1) fraction ≠ 0 :=
    Nat.ne_of_gt (Nat.lt_of_lt_of_le (Nat.two_pow_pos _) hle)
  exact (Nat.log2_eq_iff hne).2 ⟨hle, hlt⟩

/-- **Fields one behind the other** are the bits of the magnitude that they stand for. -/
theorem magnitudeBits_unitsOfFields (hf : fraction < 2 ^ 52) (exponent : Nat) :
    magnitudeBits (unitsOfFields 52 exponent fraction) = exponent * 2 ^ 52 + fraction := by
  cases exponent with
  | zero =>
    have hlog : fraction.log2 - 52 = 0 := by
      rcases Nat.eq_zero_or_pos fraction with rfl | hpos
      · rfl
      · exact Nat.sub_eq_zero_of_le (Nat.le_of_lt ((Nat.log2_lt (by omega)).2 hf))
    change (fraction.log2 - 52) * 2 ^ 52 + fraction / spacing fraction = _
    rw [hlog, spacing_of_lt (by omega), Nat.div_one]
  | succ k =>
    have hlog : (unitsOfFields 52 (k + 1) fraction).log2 - 52 = k := by
      rw [log2_unitsOfFields_succ hf, Nat.add_sub_cancel_left]
    have hcount : unitsOfFields 52 (k + 1) fraction / 2 ^ k = 2 ^ 52 + fraction := by
      rw [unitsOfFields, if_neg (Nat.succ_ne_zero k), Nat.add_sub_cancel]
      exact Nat.mul_div_cancel _ (Nat.two_pow_pos k)
    change ((unitsOfFields 52 (k + 1) fraction).log2 - 52) * 2 ^ 52 +
      unitsOfFields 52 (k + 1) fraction / spacing (unitsOfFields 52 (k + 1) fraction) = _
    rw [spacing_eq, hlog, hcount]
    ring

/-- Every magnitude has fields. -/
theorem exists_unitsOfFields (h : Representable u) :
    ∃ exponent fraction, exponent < 2047 ∧ fraction < 2 ^ 52 ∧
      u = unitsOfFields 52 exponent fraction := by
  rcases Nat.lt_or_ge u (2 ^ 52) with hshort | hlong
  · exact ⟨0, u, by decide, hshort, rfl⟩
  · obtain ⟨hlow, hhigh⟩ := spacing_bounds hlong
    obtain ⟨q, hq⟩ := Nat.dvd_of_mod_eq_zero h.2
    have hs := spacing_pos u
    have hqlow : 2 ^ 52 ≤ q := by
      refine Nat.le_of_mul_le_mul_left ?_ hs
      rw [← hq, Nat.mul_comm]
      exact hlow
    have hqhigh : q < 2 ^ 53 := by
      have hcount : spacing u * q < spacing u * 2 ^ 53 := by
        rw [← hq, Nat.mul_comm]
        exact hhigh
      exact Nat.lt_of_mul_lt_mul_left hcount
    have hlog : u.log2 < 2098 := by
      rw [← log2_unitsLimit]
      exact (Nat.log2_lt (by omega)).2 (Nat.lt_of_lt_of_eq h.1 unitsLimit_eq_pow.symm)
    refine ⟨u.log2 - 52 + 1, q - 2 ^ 52, by omega, by omega, ?_⟩
    rw [unitsOfFields, if_neg (Nat.succ_ne_zero _), Nat.add_sub_cancel, Nat.add_sub_cancel' hqlow,
      Nat.mul_comm]
    exact hq

/-! ## 2. Numbers with some bits -/

/-- Fields below the exponent field of the infinities stand for a finite number, exactly. -/
theorem ofBitFields_eq_finite {top unit : Nat} (hunit : unit = 2 ^ j) (hwidth : width ≤ 52)
    (hsize : width + exponent + j ≤ 2098) (hf : fraction < 2 ^ width) (he : exponent ≠ top)
    (negative : Bool) :
    ∃ h : Representable (unitsOfFields width exponent fraction * unit),
      ofBitFields top width unit negative exponent fraction =
        finite ⟨negative, unitsOfFields width exponent fraction * unit, h⟩ := by
  subst hunit
  have h := representable_unitsOfFields hwidth hsize hf
  refine ⟨h, ?_⟩
  have hfields : ofBitFields top width (2 ^ j) negative exponent fraction =
      ofUnits negative (unitsOfFields width exponent fraction * 2 ^ j) := by
    unfold ofBitFields unitsOfFields
    rw [if_neg he]
    split <;> rfl
  rw [hfields, ofUnits, dif_pos h]

theorem ofBitFields_top_zero (top width unit : Nat) (negative : Bool) :
    ofBitFields top width unit negative top 0 = infinite negative := by
  rw [ofBitFields, if_pos rfl, if_pos rfl]

theorem ofBitFields_top (hf : fraction ≠ 0) (top width unit : Nat) (negative : Bool) :
    ofBitFields top width unit negative top fraction = nan := by
  rw [ofBitFields, if_pos rfl, if_neg hf]

/-- So do fields of 64 bits, whose least magnitude is one unit. -/
theorem ofBitFields_eq_finite_one (hf : fraction < 2 ^ 52) (he : exponent < 2047)
    (negative : Bool) :
    ∃ h : Representable (unitsOfFields 52 exponent fraction),
      ofBitFields 2047 52 1 negative exponent fraction =
        finite ⟨negative, unitsOfFields 52 exponent fraction, h⟩ := by
  have hsize : 52 + exponent + 0 ≤ 2098 := by omega
  have hunit : 1 = 2 ^ 0 := rfl
  have h := ofBitFields_eq_finite hunit (Nat.le_refl 52) hsize hf (Nat.ne_of_lt he) negative
  rwa [Nat.mul_one] at h

theorem toNat_signed (negative : Bool) {rest : Nat} (h : rest < 2 ^ 63) :
    (toBits?.signed negative rest).toNat = if negative then 2 ^ 63 + rest else rest := by
  refine UInt64.toNat_ofNat_of_lt' ?_
  change (if negative then 2 ^ 63 + rest else rest) < 2 ^ 64
  split <;> omega

/-- The sign and the fields are found in the bits. -/
theorem ofBits_signed (he : exponent < 2048) (hf : fraction < 2 ^ 52) (negative : Bool) :
    ofBits (toBits?.signed negative (exponent * 2 ^ 52 + fraction)) =
      ofBitFields 2047 52 1 negative exponent fraction := by
  have hrest : exponent * 2 ^ 52 + fraction < 2 ^ 63 := by omega
  have hbits := toNat_signed negative hrest
  generalize toBits?.signed negative (exponent * 2 ^ 52 + fraction) = bits at hbits
  have hnegative : decide (2 ^ 63 ≤ bits.toNat) = negative := by
    rw [hbits]
    cases negative with
    | true => exact decide_eq_true (Nat.le_add_right _ _)
    | false => exact decide_eq_false (by simp only [Bool.false_eq_true, ↓reduceIte]; omega)
  have hexponent : bits.toNat / 2 ^ 52 % 2048 = exponent := by
    rw [hbits]
    split <;> omega
  have hfraction : bits.toNat % 2 ^ 52 = fraction := by
    rw [hbits]
    split <;> omega
  change ofBitFields 2047 52 1 (decide (2 ^ 63 ≤ bits.toNat)) (bits.toNat / 2 ^ 52 % 2048)
    (bits.toNat % 2 ^ 52) = _
  rw [hnegative, hexponent, hfraction]

/-- All bits are those of a sign and two fields. -/
theorem exists_signed (bits : UInt64) :
    ∃ negative exponent fraction, exponent < 2048 ∧ fraction < 2 ^ 52 ∧
      bits = toBits?.signed negative (exponent * 2 ^ 52 + fraction) := by
  have hbits := bits.toNat_lt
  refine ⟨decide (2 ^ 63 ≤ bits.toNat), bits.toNat / 2 ^ 52 % 2048, bits.toNat % 2 ^ 52,
    by omega, by omega, ?_⟩
  rw [← UInt64.toNat_inj, toNat_signed _ (by omega)]
  split
  · next h =>
    have h := of_decide_eq_true h
    omega
  · next h =>
    rw [decide_eq_true_eq] at h
    omega

/-- **A number is the number with its bits.** -/
theorem ofBits_of_toBits? (h : x.toBits? = some bits) : ofBits bits = x := by
  cases x with
  | finite x =>
    obtain ⟨exponent, fraction, he, hf, hunits⟩ := exists_unitsOfFields x.representable
    obtain ⟨_, hfinite⟩ := ofBitFields_eq_finite_one hf he x.negative
    rw [toBits?, hunits, magnitudeBits_unitsOfFields hf] at h
    rw [← Option.some.inj h, ofBits_signed (by omega) hf, hfinite]
    obtain ⟨negative, units, hx⟩ := x
    cases hunits
    rfl
  | infinite negative =>
    have hsigned : ofBits (toBits?.signed negative (2047 * 2 ^ 52 + 0)) = _ :=
      ofBits_signed (by decide) (by decide) negative
    rw [ofBitFields_top_zero, Nat.add_zero] at hsigned
    rw [← Option.some.inj h]
    exact hsigned
  | nan => cases h

/-- **Bits that mean some number are the bits of that number.** -/
theorem toBits?_ofBits (h : ofBits bits ≠ nan) : (ofBits bits).toBits? = some bits := by
  obtain ⟨negative, exponent, fraction, he, hf, rfl⟩ := exists_signed bits
  rw [ofBits_signed he hf] at h ⊢
  rcases Nat.lt_or_ge exponent 2047 with hlt | hge
  · obtain ⟨_, hfinite⟩ := ofBitFields_eq_finite_one hf hlt negative
    rw [hfinite, toBits?, magnitudeBits_unitsOfFields hf]
  · obtain rfl : exponent = 2047 := by omega
    by_cases hzero : fraction = 0
    · rw [hzero, ofBitFields_top_zero, Nat.add_zero]
      rfl
    · exact absurd (ofBitFields_top hzero 2047 52 1 negative) h

/-- **A finite number of 32 bits is taken for the number of 64 bits that it is.** -/
theorem ofBits32_eq_finite (bits : UInt32) (h : bits.toNat / Nat.pow 2 23 % 256 ≠ 255) :
    ∃ hunits : Representable (unitsOfFields 23 (bits.toNat / Nat.pow 2 23 % 256)
        (bits.toNat % Nat.pow 2 23) * Nat.pow 2 925),
      ofBits32 bits = finite ⟨decide (Nat.pow 2 31 ≤ bits.toNat), _, hunits⟩ := by
  rw [ofBits32]
  -- as a literal the exponent would have the power evaluated
  generalize hj : 925 = j
  have hsize : 23 + bits.toNat / Nat.pow 2 23 % 256 + j ≤ 2098 := by omega
  have hfraction : bits.toNat % Nat.pow 2 23 < 2 ^ 23 := Nat.mod_lt _ (by decide)
  exact ofBitFields_eq_finite Nat.pow_eq (by decide) hsize hfraction h _

end DocPath.Double
