import DocPath.Proofs.Exactness
import DocPath.Proofs.Nesting
import DocPath.Proofs.Scaling

/-!
# Numbers that drift

A document of one finite number is written and read again here.  What comes back is a finite number
of the same sign, and the text alone tells which (`reread_finite`):

* An integer that 64 bits hold is written as an integer and comes back with all its bits.
* So does any number whose shortest decimal has digits of at most 53 bits and a power of ten with at
  most 22 zeros, because nothing is rounded on the way but the decimal itself.
* Any other number comes back as its shortest digits, rounded and scaled by a rounded power of ten.
  That may be a neighbour of the number, or a neighbour's neighbour, but it is less than four
  spacings away.

The bound of 22 zeros is sharp: `1e-23` has one digit and does not come back
(`Example.tiny_drifts`).
-/

namespace DocPath

theorem Finite.eq_of_units {x y : Finite} (hnegative : y.negative = x.negative)
    (hunits : y.units = x.units) : y = x := by
  cases x
  cases y
  cases hnegative
  cases hunits
  rfl

namespace Json

open Numeral (scale? scale?_zero)

variable {x : Finite}

/-! ## 1. One number -/

/-- What is read for a number that is not written as an integer; the negative zero is one. -/
theorem exists_readBack_of_not_isInt64 (hx : ¬ x.IsInt64) :
    ∃ y : Finite, (Number.ofFinite x).ReadBack (.real y) ∧ y.negative = x.negative ∧
      scale? (unitsOfNat (Decimal.shortest x.units).digits) (Decimal.shortest x.units).exponent =
        some y.units := by
  have hform := ofFinite_of_not_isInt64 hx
  rcases Nat.eq_zero_or_pos x.units with hzero | hpos
  · have hinteger : x.IsInteger 0 := ⟨by simp [hzero], by simp⟩
    have hread := Number.readBack_ofFinite hinteger (by decide) (by decide)
    have hshortest : (Decimal.shortest x.units).digits = 0 := by
      rw [hzero]
      rfl
    rw [hshortest, unitsOfNat_zero, scale?_zero]
    rw [hform] at hread ⊢
    exact ⟨x, hread, rfl, congrArg some hzero.symm⟩
  · have hinteger : integer? x = none := by
      cases hfound : integer? x with
      | none => rfl
      | some n => exact absurd (integer?_eq_some_iff_value.1 hfound).2 hx
    rw [hform]
    exact exists_readBack_scale? hpos hinteger

/-- Scaling goes wrong by less than four spacings. -/
theorem scale?_shortest_bounds {u w : Nat} (hu : Representable u)
    (h : scale? (unitsOfNat (Decimal.shortest u).digits) (Decimal.shortest u).exponent = some w) :
    u < w + 4 * spacing u ∧ w < u + 4 * spacing u := by
  have hunits := Decimal.units_shortest hu
  rcases Nat.eq_zero_or_pos u with rfl | hpos
  · have hdigits : (Decimal.shortest 0).digits = 0 := rfl
    rw [hdigits, unitsOfNat_zero, scale?_zero] at h
    cases h
    have hs := spacing_pos 0
    omega
  · have hexponent := (Decimal.shortest_bounds hu hpos).2
    have hdigits := Decimal.digits_pos (Nat.lt_of_lt_of_eq hpos hunits.symm)
    obtain ⟨num, den, hden, rfl, hnear⟩ :=
      Numeral.exists_quotient_of_scale? hdigits hexponent h
    have hdrift := roundUnits_drift (Decimal.den_pos _) hden hnear
    rwa [← Decimal.units, hunits] at hdrift

end Json

namespace Document

open Json (Number)
open Json.Numeral (scale?)

variable {x : Finite}

/-! ## 2. A document of one number -/

theorem ofText?_text_number {n : Number} (h : (Number.ofFinite x).ReadBack n)
    (layout : Json.Layout) :
    ofText? (text layout (.number (.finite x))) = .ok (.number n.toDouble) := by
  have hread := ofText?_text_append (Tree.WellFormed.number (.finite x)) (Nat.zero_le _) layout ""
    (by simp)
  have hreread : reread (.number (.finite x)) = .number (Number.ofFinite x).reread.toDouble := rfl
  rwa [String.append_empty, hreread, h.reread_eq] at hread

theorem ofText?_text_of_isInt64 (hx : x.IsInt64) (layout : Json.Layout) :
    ofText? (text layout (.number (.finite x))) = .ok (.number (.finite x)) := by
  obtain ⟨n, hn⟩ := hx.1
  obtain ⟨hinteger, hlow, hhigh, -⟩ :=
    Json.integer?_eq_some_iff.1 (Json.integer?_eq_some_iff_value.2 ⟨hn, hx⟩)
  rw [ofText?_text_number (Number.readBack_ofFinite hinteger hlow hhigh) layout,
    Json.toDouble_ofFinite]

theorem exists_ofText?_text_of_not_isInt64 (hx : ¬ x.IsInt64) (layout : Json.Layout) :
    ∃ y : Finite, ofText? (text layout (.number (.finite x))) = .ok (.number (.finite y)) ∧
      y.negative = x.negative ∧
      scale? (unitsOfNat (Decimal.shortest x.units).digits) (Decimal.shortest x.units).exponent =
        some y.units := by
  obtain ⟨y, hread, hnegative, hscale⟩ := Json.exists_readBack_of_not_isInt64 hx
  exact ⟨y, ofText?_text_number hread layout, hnegative, hscale⟩

/-- **What a finite number becomes as a text and back.**  It is read as a finite number of the same
sign.  An integer that 64 bits hold is read as it was, and so is a number whose shortest decimal has
digits of at most 53 bits and a power of ten with at most 22 zeros.  A number that is no such
integer is read as its shortest digits, rounded and scaled; this is less than four spacings away
from it. -/
theorem reread_finite (x : Finite) (layout : Json.Layout) :
    ∃ y : Finite, ofText? (text layout (.number (.finite x))) = .ok (.number (.finite y)) ∧
      y.negative = x.negative ∧
      (x.IsInt64 → y = x) ∧
      ((Decimal.shortest x.units).digits < 2 ^ 53 →
        (Decimal.shortest x.units).exponent.natAbs ≤ 22 → y = x) ∧
      (¬ x.IsInt64 → scale? (unitsOfNat (Decimal.shortest x.units).digits)
        (Decimal.shortest x.units).exponent = some y.units) ∧
      x.units < y.units + 4 * spacing x.units ∧ y.units < x.units + 4 * spacing x.units := by
  by_cases hx : x.IsInt64
  · have hs := spacing_pos x.units
    exact ⟨x, ofText?_text_of_isInt64 hx layout, rfl, fun _ => rfl, fun _ _ => rfl,
      fun h => absurd hx h, by omega, by omega⟩
  · obtain ⟨y, hread, hnegative, hscale⟩ := exists_ofText?_text_of_not_isInt64 hx layout
    refine ⟨y, hread, hnegative, fun h => absurd h hx, ?_, fun _ => hscale,
      Json.scale?_shortest_bounds x.representable hscale⟩
    intro hdigits hexponent
    rw [Json.Numeral.scale?_of_short hdigits hexponent,
      Decimal.units_shortest x.representable] at hscale
    exact Finite.eq_of_units hnegative (Option.some.inj hscale).symm

namespace Example

theorem representable_units :
    Representable (Decimal.units ⟨125, -2⟩) ∧ Representable (Decimal.units ⟨1, -23⟩) ∧
      Representable (Decimal.units ⟨1, -23⟩ + spacing (Decimal.units ⟨1, -23⟩)) := by
  decide +kernel

/-- A number with a fraction and few digits, `-1.25`. -/
def fiveQuarters : Finite := ⟨true, Decimal.units ⟨125, -2⟩, representable_units.1⟩

/-- The number that `1e-23` rounds to, and the next one. -/
def tiny : Finite := ⟨false, Decimal.units ⟨1, -23⟩, representable_units.2.1⟩

@[inherit_doc tiny]
def nextToTiny : Finite :=
  ⟨false, Decimal.units ⟨1, -23⟩ + spacing (Decimal.units ⟨1, -23⟩), representable_units.2.2⟩

/-- The shortest decimals of the numbers.  For `1e-23` one is divided by `10 ^ 23`, which is
rounded, and so the quotient is not the nearest. -/
theorem shortest_facts :
    Decimal.shortest fiveQuarters.units = ⟨125, -2⟩ ∧ Decimal.shortest tiny.units = ⟨1, -23⟩ ∧
      text .compact (.number (.finite tiny)) = "1e-23" ∧ tiny.units % unitsPerOne ≠ 0 ∧
      divUnits (unitsOfNat 1) (unitsOfPow10 23) = nextToTiny.units ∧
      nextToTiny.units ≠ tiny.units := by
  decide +kernel

theorem reread_fiveQuarters :
    Decimal.shortest fiveQuarters.units = ⟨125, -2⟩ ∧
      ofText? (text .indented (.number (.finite fiveQuarters))) =
        .ok (.number (.finite fiveQuarters)) := by
  obtain ⟨hshortest, -⟩ := shortest_facts
  obtain ⟨y, hread, -, -, hshort, -⟩ := reread_finite fiveQuarters .indented
  rw [hshortest] at hshort
  rw [hshort (by decide) (by decide)] at hread
  exact ⟨hshortest, hread⟩

theorem tiny_drifts :
    text .compact (.number (.finite tiny)) = "1e-23" ∧
      ofText? "1e-23" = .ok (.number (.finite nextToTiny)) ∧
      ¬ ∀ x : Finite,
        ofText? (text .compact (.number (.finite x))) = .ok (.number (.finite x)) := by
  obtain ⟨-, hshortest, htext, hfraction, hquotient, hne⟩ := shortest_facts
  have hx : ¬ tiny.IsInt64 := by
    rintro ⟨⟨n, hn⟩, -⟩
    rw [Finite.value_eq_intCast_iff] at hn
    rw [hn.1, Nat.mul_mod_left] at hfraction
    exact hfraction rfl
  obtain ⟨y, hread, hnegative, hscale⟩ := exists_ofText?_text_of_not_isInt64 hx .compact
  have hscaled : scale? (unitsOfNat 1) (-23) = some nextToTiny.units := by
    rw [← hquotient, scale?, if_pos (by decide), Json.Numeral.divPow10]
    exact congrArg some (if_pos (by decide))
  rw [hshortest, hscaled] at hscale
  have hy : y = nextToTiny :=
    Finite.eq_of_units (x := nextToTiny) hnegative (Option.some.inj hscale).symm
  rw [hy] at hread
  refine ⟨htext, by rw [← htext, hread], ?_⟩
  intro hall
  have hsame := Except.ok.inj (hread.symm.trans (hall tiny))
  exact hne (congrArg Finite.units (Double.finite.inj (Tree.number.inj hsame)))

end Example

end Document

end DocPath
