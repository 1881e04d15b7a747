import DocPath.Number.Binary64

/-!
# Rounding that changes nothing

A number of units that is a magnitude is rounded to itself, and so is zero whatever it is divided
by.
-/

namespace DocPath

theorem roundDiv_zero (den : Nat) : roundDiv 0 den = 0 := by
  have hcond : 2 * (0 % den) < den ∨ 2 * (0 % den) = den ∧ 0 / den % 2 = 0 := by
    rw [Nat.zero_mod, Nat.zero_div]
    omega
  exact (if_pos hcond).trans (Nat.zero_div den)

theorem roundUnits_zero (den : Nat) : roundUnits 0 den = 0 := by
  rw [roundUnits, roundDiv_zero, Nat.zero_mul]

theorem unitsOfNat_zero : unitsOfNat 0 = 0 := by
  rw [unitsOfNat, Nat.zero_mul, roundUnits_zero]

/-- A quotient without a rest needs no rounding. -/
theorem roundDiv_of_mod_eq_zero {num den : Nat} (hden : 0 < den) (h : num % den = 0) :
    roundDiv num den = num / den := by
  rw [roundDiv, h]
  exact if_pos (.inl hden)

theorem unitsPerOne_pos : 0 < unitsPerOne := by decide +kernel

theorem spacing_pos (u : Nat) : 0 < spacing u := Nat.pow_pos (by decide)

/-- A magnitude is rounded to itself, also where it stands as a quotient. -/
theorem roundUnits_mul_self {u den : Nat} (h : Representable u) (hden : 0 < den) :
    roundUnits (u * den) den = u := by
  have hs := spacing_pos u
  have hquotient : u * den / (den * spacing u) = u / spacing u := by
    rw [Nat.mul_comm u den, Nat.mul_div_mul_left _ _ hden]
  have hrest : u * den % (den * spacing u) = 0 := by
    rw [Nat.mul_comm u den, Nat.mul_mod_mul_left, h.2, Nat.mul_zero]
  rw [roundUnits, Nat.mul_div_cancel u hden, roundDiv_of_mod_eq_zero (Nat.mul_pos hden hs) hrest,
    hquotient]
  exact Nat.div_mul_cancel (Nat.dvd_of_mod_eq_zero h.2)

theorem roundUnits_of_representable {u : Nat} (h : Representable u) : roundUnits u 1 = u := by
  have hself := roundUnits_mul_self h Nat.one_pos
  rwa [Nat.mul_one] at hself

theorem representable_zero : Representable 0 := by decide +kernel

end DocPath
