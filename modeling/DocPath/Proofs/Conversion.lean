import Mathlib.Algebra.Group.Int.Defs
import Mathlib.Algebra.Group.Nat.Defs
import DocPath.Json.Basic
import DocPath.Proofs.Rounding
import DocPath.Proofs.Trees

/-!
# Documents as JSON trees and back

A finite number becomes an integer of a JSON tree exactly if it is one that 64 bits hold with a
sign, and the integer then has the same value (`integer?_eq_some_iff`); rounding such an integer
gives the number back, bit for bit (`toDouble_ofFinite`).  The only integral number of that range
that stays a floating point number is the negative zero, because no integer keeps its sign.

So a document that becomes a JSON tree and a document again is the same document but for the numbers
that are not finite, which are null then (`toDocument_ofDocument`).
-/

namespace DocPath

/-! ## 1. Numbers that are integers -/

/-- The number is the integer `n`.  Zero of either sign is the integer zero. -/
def Finite.IsInteger (x : Finite) (n : Int) : Prop :=
  x.units = n.natAbs * unitsPerOne ∧ if x.negative then n ≤ 0 else 0 ≤ n

theorem Double.ofUnits_of_representable (negative : Bool) {u : Nat} (h : Representable u) :
    Double.ofUnits negative u = .finite ⟨negative, u, h⟩ := dif_pos h

/-- An integer that is a number is rounded to it, unless that number is the negative zero. -/
theorem Double.ofInt_of_isInteger {x : Finite} {n : Int} (h : x.IsInteger n)
    (hzero : x.negative = true → n ≠ 0) : Double.ofInt n = .finite x := by
  obtain ⟨negative, units, hrepresentable⟩ := x
  obtain ⟨hunits, hsign⟩ := h
  have hrounded : unitsOfNat n.natAbs = units := by
    rw [unitsOfNat, ← hunits]
    exact roundUnits_of_representable hrepresentable
  have hnegative : decide (n < 0) = negative := by
    cases negative with
    | false =>
      have hn : 0 ≤ n := hsign
      exact decide_eq_false (Int.not_lt.2 hn)
    | true =>
      have hn : n ≤ 0 := hsign
      exact decide_eq_true (Int.lt_iff_le_and_ne.2 ⟨hn, hzero rfl⟩)
  rw [Double.ofInt, hrounded, hnegative, ofUnits_of_representable negative hrepresentable]

namespace Json

/-- **When a finite number is written as an integer, and as which.** -/
theorem integer?_eq_some_iff {x : Finite} {n : Int} :
    integer? x = some n ↔
      x.IsInteger n ∧ -2 ^ 63 ≤ n ∧ n < 2 ^ 63 ∧ (x.negative = true → n ≠ 0) := by
  have hpow : Nat.pow 2 63 = 2 ^ 63 := rfl
  have hone := unitsPerOne_pos
  obtain ⟨negative, units, hrepresentable⟩ := x
  simp only [integer?, Finite.IsInteger, hpow]
  -- the arithmetic holds for any unit
  generalize unitsPerOne = one at hone ⊢
  constructor
  · intro h
    split at h
    · cases h
    · next hmod =>
      have hunits : units = units / one * one :=
        (Nat.div_mul_cancel (Nat.dvd_of_mod_eq_zero (Decidable.not_not.1 hmod))).symm
      generalize units / one = whole at h hunits
      cases negative with
      | true =>
        simp only [if_true, Option.ite_none_right_eq_some, Option.some.injEq] at h
        obtain ⟨⟨hpos, hle⟩, rfl⟩ := h
        rw [Int.natAbs_neg, Int.natAbs_natCast]
        exact ⟨⟨hunits, by simp⟩, by omega, by omega, by omega⟩
      | false =>
        simp only [Bool.false_eq_true, if_false, Option.ite_none_right_eq_some,
          Option.some.injEq] at h
        obtain ⟨hlt, rfl⟩ := h
        rw [Int.natAbs_natCast]
        exact ⟨⟨hunits, by simp⟩, by omega, by omega, by simp⟩
  · rintro ⟨⟨rfl, hsign⟩, hlow, hhigh, hzero⟩
    rw [Nat.mul_mod_left, Nat.mul_div_cancel _ hone, if_neg (not_not_intro rfl)]
    cases negative with
    | true =>
      have hn : n ≤ 0 := hsign
      have hne := hzero rfl
      have hrange : 0 < n.natAbs ∧ n.natAbs ≤ 2 ^ 63 := by omega
      rw [if_pos rfl, if_pos hrange, Int.ofNat_natAbs_of_nonpos hn, Int.neg_neg]
    | false =>
      have hn : 0 ≤ n := hsign
      have hrange : n.natAbs < 2 ^ 63 := by omega
      rw [if_neg (by simp), if_pos hrange, Int.natAbs_of_nonneg hn]

/-- What a finite number is written as has its value, its sign included. -/
theorem toDouble_ofFinite (x : Finite) : (Number.ofFinite x).toDouble = .finite x := by
  unfold Number.ofFinite
  split
  · next n hn =>
    obtain ⟨hinteger, -, -, hzero⟩ := integer?_eq_some_iff.1 hn
    exact Double.ofInt_of_isInteger hinteger hzero
  · rfl

/-- An integral number of the range that is written as no integer is the negative zero. -/
theorem negativeZero_of_integer?_eq_none {x : Finite} {n : Int} (hx : x.IsInteger n)
    (hlow : -2 ^ 63 ≤ n) (hhigh : n < 2 ^ 63) (h : integer? x = none) :
    x = ⟨true, 0, representable_zero⟩ := by
  have hzero : x.negative = true ∧ n = 0 := by
    refine Decidable.byContradiction ?_
    intro hne
    have hsome := integer?_eq_some_iff.2 ⟨hx, hlow, hhigh, fun hneg hn => hne ⟨hneg, hn⟩⟩
    cases hsome.symm.trans h
  obtain ⟨negative, units, hrepresentable⟩ := x
  obtain ⟨rfl, rfl⟩ := hzero
  have hunits : units = 0 := by simpa using hx.1
  subst hunits
  rfl

end Json

/-! ## 2. Whole documents -/

namespace Document

/-- The document with null in the place of every number that is not finite. -/
def withoutNonFinite (d : Document) : Document :=
  d.bind fun
    | .finite x => .number (.finite x)
    | .infinite _ => .null
    | .nan => .null

end Document

namespace Json

/-- Becoming a JSON tree costs a document its numbers that are not finite, and nothing else. -/
theorem toDocument_ofDocument (d : Document) : toDocument (ofDocument d) = d.withoutNonFinite := by
  rw [toDocument, ofDocument, Tree.bind_bind, Document.withoutNonFinite]
  refine Tree.bind_congr ?_
  intro x _
  cases x with
  | finite x =>
    rw [ofDouble, Tree.bind, toDouble_ofFinite]
  | infinite _ => rfl
  | nan => rfl

/-- The numbers of the JSON tree are those that the finite numbers of the document are written
as. -/
theorem exists_of_mem_numbers_ofDocument {d : Document} {y : Number}
    (h : y ∈ (ofDocument d).numbers) : ∃ x, .finite x ∈ d.numbers ∧ y = .ofFinite x := by
  obtain ⟨x, hx, hy⟩ := Tree.mem_numbers_bind h
  cases x with
  | finite x => exact ⟨x, hx, List.mem_singleton.1 hy⟩
  | infinite _ => cases hy
  | nan => cases hy

theorem depth_ofDocument (d : Document) : (ofDocument d).depth = d.depth :=
  Tree.depth_bind (fun x => by cases x <;> rfl) d

theorem depth_ofDocument_le (d : Document) : (ofDocument d).depth ≤ d.depth :=
  Nat.le_of_eq (depth_ofDocument d)

theorem wellFormed_ofDocument {d : Document} (h : d.WellFormed) : (ofDocument d).WellFormed := by
  refine Tree.WellFormed.bind ?_ h
  intro x
  cases x with
  | finite x => exact .number _
  | infinite _ => exact .null
  | nan => exact .null

end Json

end DocPath
