import DocPath.Proofs.NumberTexts

/-!
# How long a shortest decimal is

A shortest decimal is searched for on the grids of powers of ten, from a coarse one on.  A grid
that is finer than half the distance to the next magnitude holds one (`isSome_onGrid?`), and for
every length of the magnitude such a grid is among those that are tried (`fineGrid_bounds`).  So one
is found, and on that grid or a coarser one.

This bounds what is written: the digits of a shortest decimal are a number of less than 64 bits, and
they do not reach beyond the place 324 behind the point (`shortest_bounds`).
-/

namespace DocPath

variable {u num den : Nat}

/-! ## 1. What rounds to a magnitude -/

/-- The spacing does not change from one magnitude up to the next. -/
theorem spacing_eq_of_lt {q : Nat} (hu : Representable u) (hle : u ≤ q) (hlt : q < u + spacing u) :
    spacing q = spacing u := by
  rcases Nat.lt_or_ge u (2 ^ 52) with hshort | hlong
  · have hone : spacing u = 1 := spacing_of_lt (Nat.lt_trans hshort (by decide))
    have heq : q = u := by omega
    rw [heq]
  · obtain ⟨-, hhigh⟩ := spacing_bounds hlong
    have hs := spacing_pos u
    have hpow := pow_log2_eq hlong
    have hlog : q.log2 = u.log2 := by
      refine Nat.le_antisymm (Nat.le_of_lt_succ ((Nat.log2_lt (by omega)).2 ?_)) (log2_le_log2 hle)
      obtain ⟨m, hm⟩ := Nat.dvd_of_mod_eq_zero hu.2
      rw [pow_succ, hpow]
      generalize spacing u = s at *
      have hcount : m < 2 ^ 53 := by
        rw [hm, Nat.mul_comm] at hhigh
        exact Nat.lt_of_mul_lt_mul_right hhigh
      have hnext := Nat.mul_le_mul_left s (Nat.succ_le_of_lt hcount)
      rw [Nat.mul_succ, ← hm] at hnext
      omega
    rw [spacing_eq, hlog, ← spacing_eq]

/-- What lies less than half a spacing above a magnitude rounds to it. -/
theorem roundUnits_eq_of_lt (hu : Representable u) (hden : 0 < den) (hlow : u * den ≤ num)
    (hhigh : 2 * num < (2 * u + spacing u) * den) : roundUnits num den = u := by
  have hle : u ≤ num / den := (Nat.le_div_iff_mul_le hden).2 hlow
  have hlt : num / den < u + spacing u := by
    rw [Nat.div_lt_iff_lt_mul hden]
    rw [Nat.add_mul, Nat.mul_assoc] at hhigh
    rw [Nat.add_mul]
    omega
  have hs := spacing_pos u
  rw [roundUnits, spacing_eq_of_lt hu hle hlt]
  obtain ⟨m, hm⟩ := Nat.dvd_of_mod_eq_zero hu.2
  generalize spacing u = s at *
  have hmultiple : u * den = m * (den * s) := by
    rw [hm]
    ring
  rw [Nat.add_mul, Nat.mul_assoc, Nat.mul_comm s den, hmultiple] at hhigh
  rw [hmultiple] at hlow
  have hbelow : num / (den * s) = m := by
    refine Nat.div_eq_of_lt_le hlow ?_
    rw [Nat.succ_mul]
    omega
  have hrest := Nat.div_add_mod num (den * s)
  rw [hbelow, Nat.mul_comm] at hrest
  have hdown : 2 * (num % (den * s)) < den * s := by omega
  rw [roundDiv, hbelow, hm, Nat.mul_comm s m]
  exact congrArg (· * s) (if_pos (.inl hdown))

/-- The spacing where a number stands is at most that of what it rounds to. -/
theorem spacing_le_spacing_roundUnits (num : Nat) (hden : 0 < den) :
    spacing (num / den) ≤ spacing (roundUnits num den) := by
  rcases Nat.lt_or_ge (num / den) (2 ^ 52) with hshort | hlong
  · rw [spacing_of_lt (Nat.lt_trans hshort (by decide))]
    exact spacing_pos _
  · have hpos : num / den ≠ 0 := by omega
    have hlog : 52 ≤ (num / den).log2 := (Nat.le_log2 hpos).2 hlong
    have hpow := pow_le_roundUnits hden hlog (Nat.log2_self_le hpos)
    have hround : roundUnits num den ≠ 0 := by
      have := Nat.one_le_two_pow (n := (num / den).log2)
      omega
    exact Nat.pow_le_pow_right (by decide) (Nat.sub_le_sub_right ((Nat.le_log2 hround).2 hpow) 52)

theorem spacing_le_self (hpos : 0 < u) : spacing u ≤ u :=
  Nat.le_trans (Nat.pow_le_pow_right (by decide) (Nat.sub_le _ _)) (Nat.log2_self_le (by omega))

namespace Decimal

variable {d : Decimal} {e : Int}

/-! ## 2. The search -/

theorem exponent_of_onGrid? (h : onGrid? e u = some d) : d.exponent = e := by
  have hnearer (lower : Decimal) : (nearer lower u).exponent = lower.exponent := by
    rw [nearer]
    split <;> rfl
  unfold onGrid? at h
  simp only at h
  split at h
  · split at h
    · rw [← Option.some.inj h, hnearer]
      rfl
    · rw [← Option.some.inj h]
      rfl
  · split at h
    · rw [← Option.some.inj h]
      rfl
    · cases h

/-- A grid that is finer than half a spacing holds a decimal of the magnitude: the first one above
it. -/
theorem isSome_onGrid? (hu : Representable u)
    (hfine : 2 * (Nat.pow 10 e.toNat * unitsPerOne) < spacing u * Nat.pow 10 (-e).toNat) :
    (onGrid? e u).isSome := by
  have hsucc : (floor e u).succ.units = u := by
    have hden : (floor e u).succ.den = Nat.pow 10 (-e).toNat := rfl
    have hnum : (floor e u).succ.num =
        (u * Nat.pow 10 (-e).toNat / (Nat.pow 10 e.toNat * unitsPerOne) + 1) *
          (Nat.pow 10 e.toNat * unitsPerOne) := Nat.mul_assoc _ _ _
    have hstep : 0 < Nat.pow 10 e.toNat * unitsPerOne :=
      Nat.mul_pos (Nat.pow_pos (by decide)) unitsPerOne_pos
    generalize Nat.pow 10 e.toNat * unitsPerOne = step at *
    have hbelow := Nat.div_mul_le_self (u * Nat.pow 10 (-e).toNat) step
    have habove := Nat.lt_mul_div_succ (u * Nat.pow 10 (-e).toNat) hstep
    rw [Nat.mul_comm step, Nat.add_mul, Nat.one_mul] at habove
    rw [Nat.add_mul, Nat.one_mul] at hnum
    refine roundUnits_eq_of_lt hu (den_pos _) ?_ ?_
    · rw [hden, hnum]
      exact Nat.le_of_lt habove
    · rw [hden, hnum, Nat.add_mul, Nat.mul_assoc 2]
      omega
  unfold onGrid?
  simp only [hsucc, if_true]
  split <;> rfl

/-- The search goes no further than to a grid that holds one. -/
theorem exists_search {tries : Nat} {first : Int} (h : (onGrid? e u).isSome) (hle : e ≤ first)
    (htries : first ≤ e + tries) : ∃ d, search u tries first = some d ∧ e ≤ d.exponent := by
  induction tries generalizing first with
  | zero =>
    have hfirst : first = e := by omega
    obtain ⟨d, hd⟩ := Option.isSome_iff_exists.1 h
    rw [search, hfirst, hd]
    exact ⟨d, rfl, Int.le_of_eq (exponent_of_onGrid? hd).symm⟩
  | succ tries ih =>
    rw [search]
    cases hgrid : onGrid? first u with
    | some d =>
      refine ⟨d, rfl, ?_⟩
      rwa [exponent_of_onGrid? hgrid]
    | none =>
      have hne : first ≠ e := by
        rintro rfl
        rw [hgrid] at h
        cases h
      exact ih (by omega) (by omega)

/-! ## 3. The grids that are tried -/

/-- A grid that is fine enough for the magnitudes of so many bits, and not much finer; it is counted
from `10 ^ -340` on. -/
def finePlace (bits : Nat) : Nat := max (bits * 30103 / 100000) 16

@[inherit_doc finePlace]
def fineGrid (bits : Nat) : Int := finePlace bits - 340

/-- The grid is finer than half a spacing, and so coarse that the magnitudes count less than
`2 ^ 62` of its steps. -/
theorem finePlace_bounds : ∀ bits ∈ List.range unitsLimit.log2,
    2 * (Nat.pow 10 (finePlace bits - 340) * unitsPerOne) <
        Nat.pow 2 (bits - 52) * Nat.pow 10 (340 - finePlace bits) ∧
      Nat.pow 2 (bits + 1) * Nat.pow 10 (340 - finePlace bits) ≤
        Nat.pow 2 62 * (Nat.pow 10 (finePlace bits - 340) * unitsPerOne) := by
  decide +kernel

/-- The grid is among those that are tried. -/
theorem fineGrid_tried (bits : Nat) :
    fineGrid bits ≤ ((bits : Int) - 1073) * 30103 / 100000 + 1 ∧
      ((bits : Int) - 1073) * 30103 / 100000 + 1 ≤ fineGrid bits + 20 ∧ -324 ≤ fineGrid bits := by
  rw [fineGrid, finePlace]
  omega

theorem fineGrid_bounds {bits : Nat} (h : bits ∈ List.range unitsLimit.log2) :
    2 * (Nat.pow 10 (fineGrid bits).toNat * unitsPerOne) <
        Nat.pow 2 (bits - 52) * Nat.pow 10 (-fineGrid bits).toNat ∧
      Nat.pow 2 (bits + 1) * Nat.pow 10 (-fineGrid bits).toNat ≤
        Nat.pow 2 62 * (Nat.pow 10 (fineGrid bits).toNat * unitsPerOne) := by
  have hup : (fineGrid bits).toNat = finePlace bits - 340 := by
    rw [fineGrid]
    omega
  have hdown : (-fineGrid bits).toNat = 340 - finePlace bits := by
    rw [fineGrid]
    omega
  rw [hup, hdown]
  exact finePlace_bounds bits h

theorem log2_mem_range (hu : Representable u) (hpos : 0 < u) :
    u.log2 ∈ List.range unitsLimit.log2 :=
  List.mem_range.2
    ((Nat.log2_lt (by omega)).2 (Nat.lt_of_lt_of_eq hu.1 unitsLimit_eq_pow.symm))

/-- **The shortest decimal is found**, on the fine grid or on a coarser one. -/
theorem fineGrid_le_exponent_shortest (hu : Representable u) (hpos : 0 < u) :
    fineGrid u.log2 ≤ (shortest u).exponent := by
  obtain ⟨hfirst, htries, -⟩ := fineGrid_tried u.log2
  obtain ⟨hfine, -⟩ := fineGrid_bounds (log2_mem_range hu hpos)
  obtain ⟨d, hd, hle⟩ := exists_search (isSome_onGrid? hu hfine) hfirst htries
  have hceiling : search u 20 (ceiling u) = some d := hd
  rw [shortest, if_neg (by omega), hceiling]
  exact hle

/-- Digits that make at most half more than `u` on a grid `p / m` are few, if `u` counts few steps
of a grid `p' / m'` that is no coarser. -/
theorem digits_lt {digits one top p m p' m' : Nat} (hdigits : 2 * (digits * p * one) ≤ 3 * u * m)
    (hu : u ≤ top) (hcoarse : top * m' ≤ 2 ^ 62 * (p' * one)) (hgrids : p' * m ≤ p * m')
    (hpos : 0 < p * m' * one) : digits < 2 ^ 64 := by
  have hbound : 2 * digits * (p * m' * one) ≤ 3 * 2 ^ 62 * (p * m' * one) := by
    calc 2 * digits * (p * m' * one) = 2 * (digits * p * one) * m' := by ring
      _ ≤ 3 * u * m * m' := Nat.mul_le_mul_right m' hdigits
      _ ≤ 3 * top * m * m' :=
        Nat.mul_le_mul_right _ (Nat.mul_le_mul_right _ (Nat.mul_le_mul_left 3 hu))
      _ = 3 * m * (top * m') := by ring
      _ ≤ 3 * m * (2 ^ 62 * (p' * one)) := Nat.mul_le_mul_left _ hcoarse
      _ = 3 * 2 ^ 62 * (p' * m * one) := by ring
      _ ≤ 3 * 2 ^ 62 * (p * m' * one) :=
        Nat.mul_le_mul_left _ (Nat.mul_le_mul_right _ hgrids)
  have := Nat.le_of_mul_le_mul_right hbound hpos
  omega

/-- **A shortest decimal is short.** -/
theorem shortest_bounds (hu : Representable u) (hpos : 0 < u) :
    (shortest u).digits < 2 ^ 64 ∧ -324 ≤ (shortest u).exponent := by
  have hgrid := fineGrid_le_exponent_shortest hu hpos
  obtain ⟨-, hcoarse⟩ := fineGrid_bounds (log2_mem_range hu hpos)
  obtain ⟨-, -, hleast⟩ := fineGrid_tried u.log2
  have hunits := units_shortest hu
  refine ⟨?_, Int.le_trans hleast hgrid⟩
  generalize shortest u = d at *
  generalize fineGrid u.log2 = f at *
  have hnum : 2 * d.num ≤ 3 * u * d.den := by
    obtain ⟨hround, -⟩ := roundUnits_bounds d.num d.den_pos
    have hspacing := spacing_le_spacing_roundUnits d.num d.den_pos
    rw [← units, hunits] at hround hspacing
    have hself := spacing_le_self hpos
    exact Nat.le_trans hround (Nat.mul_le_mul_right _ (by omega))
  have hlog : u < Nat.pow 2 (u.log2 + 1) := Nat.lt_log2_self
  have hgrids : Nat.pow 10 f.toNat * Nat.pow 10 (-d.exponent).toNat ≤
      Nat.pow 10 d.exponent.toNat * Nat.pow 10 (-f).toNat := by
    change 10 ^ f.toNat * 10 ^ (-d.exponent).toNat ≤ 10 ^ d.exponent.toNat * 10 ^ (-f).toNat
    rw [← pow_add, ← pow_add]
    exact Nat.pow_le_pow_right (by decide) (by omega)
  have hscale : 0 < Nat.pow 10 d.exponent.toNat * Nat.pow 10 (-f).toNat * unitsPerOne :=
    Nat.mul_pos (Nat.mul_pos (Nat.pow_pos (by decide)) (Nat.pow_pos (by decide))) unitsPerOne_pos
  exact digits_lt hnum (Nat.le_of_lt hlog) hcoarse hgrids hscale

end Decimal

end DocPath
