import Mathlib.Algebra.Order.Field.Rat
import Mathlib.Data.List.Forall2
import Mathlib.Tactic.NormNum
import DocPath.Proofs.Conversion

/-!
# What documents keep as JSON trees

A document that becomes a JSON tree and a document again is compared here with the first one node by
node (`Document.NullsFor`): the same strings, the same elements in their order, the same names in
their order, the same finite numbers with their signs and all their bits, and null for a number that
is not finite.  Nothing else can come back (`conversion_exact`).

On the way some numbers are integers.  Which ones, and as which, is told by the value that a number
has as a fraction (`Finite.value`): those that are integral and lie from `-2 ^ 63` below `2 ^ 63`,
but for the negative zero, and every one as the integer that it is.  The conversion to 64 bits that
drops a fraction and stops at the ends of its range (`Finite.toInt64`) would give this integer too;
nothing is dropped, and no end is met.
-/

namespace DocPath

/-! ## 1. The value of a number -/

namespace Finite

variable {x : Finite} {n : Int}

/-- The units of a number with its sign. -/
def signedUnits (x : Finite) : Int := if x.negative then -(x.units : Int) else x.units

/-- The number as a fraction.  The two zeros have one value. -/
def value (x : Finite) : ℚ := x.signedUnits / unitsPerOne

/-- Zero with a minus sign. -/
def IsNegativeZero (x : Finite) : Prop := x.negative = true ∧ x.units = 0

/-- The number is an integer that 64 bits hold with a sign, and that has a form of its own. -/
def IsInt64 (x : Finite) : Prop :=
  (∃ n : Int, x.value = n) ∧ -(2 ^ 63) ≤ x.value ∧ x.value < 2 ^ 63 ∧ ¬ x.IsNegativeZero

/-- The number without its fraction. -/
def truncate (x : Finite) : Int := x.signedUnits.tdiv unitsPerOne

/-- The number without its fraction, and the end of the range of 64 bits if it lies beyond. -/
def toInt64 (x : Finite) : Int64 := .ofIntClamp x.truncate

theorem signedUnits_eq_mul_iff {one : Nat} (hone : 0 < one) :
    x.signedUnits = n * one ↔
      x.units = n.natAbs * one ∧ if x.negative then n ≤ 0 else 0 ≤ n := by
  have magnitude (m : Int) : (x.units : Int) = m * one ↔ x.units = m.natAbs * one ∧ 0 ≤ m := by
    constructor
    · intro h
      have hm : 0 ≤ m := by
        refine Int.nonneg_of_mul_nonneg_left ?_ (Int.natCast_pos.2 hone)
        rw [← h]
        exact Int.natCast_nonneg _
      obtain ⟨k, rfl⟩ := Int.eq_ofNat_of_zero_le hm
      exact ⟨by exact_mod_cast h, hm⟩
    · rintro ⟨h, hm⟩
      obtain ⟨k, rfl⟩ := Int.eq_ofNat_of_zero_le hm
      exact_mod_cast h
  rw [signedUnits]
  cases x.negative with
  | false => exact magnitude n
  | true =>
    have hneg : -(x.units : Int) = n * one ↔ (x.units : Int) = -n * one := by
      rw [Int.neg_mul]
      omega
    rw [if_pos rfl, hneg, magnitude, Int.natAbs_neg, if_pos rfl]
    omega

/-- A number is an integer exactly if its value is. -/
theorem value_eq_intCast_iff : x.value = n ↔ x.IsInteger n := by
  have hone := unitsPerOne_pos
  rw [IsInteger, ← signedUnits_eq_mul_iff hone, value]
  generalize unitsPerOne = one at hone ⊢
  have hne : (one : ℚ) ≠ 0 := Nat.cast_ne_zero.2 (Nat.ne_of_gt hone)
  rw [div_eq_iff hne]
  norm_cast

/-- An integer has no fraction to lose. -/
theorem truncate_of_isInteger (h : x.IsInteger n) : x.truncate = n := by
  have hone := unitsPerOne_pos
  rw [truncate, (signedUnits_eq_mul_iff hone).2 h]
  exact Int.mul_tdiv_cancel n (Int.natCast_ne_zero.2 (Nat.ne_of_gt hone))

/-- An integer of the range is converted to itself. -/
theorem toInt_toInt64 (h : x.IsInteger n) (hlow : -2 ^ 63 ≤ n) (hhigh : n < 2 ^ 63) :
    x.toInt64.toInt = n := by
  rw [toInt64, truncate_of_isInteger h]
  refine Int64.toInt_ofIntClamp ?_ ?_
  · rwa [Int64.toInt_minValue]
  · rw [Int64.toInt_maxValue]
    omega

end Finite

namespace Json

/-! ## 2. Numbers that are written as integers -/

variable {x : Finite} {n : Int}

/-- When a number is written as an integer, told by its value. -/
theorem integer?_eq_some_iff_value : integer? x = some n ↔ x.value = n ∧ x.IsInt64 := by
  rw [integer?_eq_some_iff, ← Finite.value_eq_intCast_iff]
  constructor
  · rintro ⟨hvalue, hlow, hhigh, hzero⟩
    refine ⟨hvalue, ⟨n, hvalue⟩, ?_, ?_, ?_⟩
    · rw [hvalue]
      exact_mod_cast hlow
    · rw [hvalue]
      exact_mod_cast hhigh
    · rintro ⟨hnegative, hunits⟩
      have hprod := (Finite.value_eq_intCast_iff.1 hvalue).1
      rw [hunits, eq_comm, Nat.mul_eq_zero, Int.natAbs_eq_zero] at hprod
      exact hzero hnegative (hprod.resolve_right (Nat.ne_of_gt unitsPerOne_pos))
  · rintro ⟨hvalue, -, hlow, hhigh, hzero⟩
    rw [hvalue] at hlow hhigh
    refine ⟨hvalue, by exact_mod_cast hlow, by exact_mod_cast hhigh, ?_⟩
    rintro hnegative rfl
    have hunits := (Finite.value_eq_intCast_iff.1 hvalue).1
    exact hzero ⟨hnegative, by rw [hunits, Int.natAbs_zero, Nat.zero_mul]⟩

theorem ofFinite_eq_integer_iff :
    Number.ofFinite x = .integer n ↔ x.value = n ∧ x.IsInt64 := by
  rw [← integer?_eq_some_iff_value, Number.ofFinite]
  cases integer? x <;> simp

/-- What is written as no integer stays what it was. -/
theorem ofFinite_of_not_isInt64 (h : ¬ x.IsInt64) : Number.ofFinite x = .real x := by
  cases hinteger : integer? x with
  | none => rw [Number.ofFinite, hinteger]
  | some n => exact absurd (integer?_eq_some_iff_value.1 hinteger).2 h

end Json

/-! ## 3. Whole documents -/

/-- Lists that are related element by element to what a function gives are the lists of these. -/
theorem forall₂_iff_eq_map {α β : Type} {r : α → β → Prop} {f : α → β} {xs : List α} {ys : List β}
    (h : ∀ x ∈ xs, ∀ y, r x y ↔ y = f x) : List.Forall₂ r xs ys ↔ ys = xs.map f := by
  induction xs generalizing ys with
  | nil => rw [List.forall₂_nil_left_iff, List.map_nil]
  | cons x xs ih =>
    obtain ⟨hx, hxs⟩ := List.forall_mem_cons.1 h
    rw [List.forall₂_cons_left_iff, List.map_cons]
    constructor
    · rintro ⟨y, ys', hy, hys, rfl⟩
      rw [(hx y).1 hy, (ih hxs).1 hys]
    · rintro rfl
      exact ⟨f x, xs.map f, (hx _).2 rfl, (ih hxs).2 rfl, rfl⟩

/-- Fields with the same names and changed values are told by their names and their values. -/
theorem Fields.eq_map_iff {α β : Type} {f : α → β} {fs : Fields α} {gs : Fields β} :
    gs = fs.map (fun field => (field.1, f field.2)) ↔
      gs.keys = fs.keys ∧ gs.map Prod.snd = (fs.map Prod.snd).map f := by
  constructor
  · rintro rfl
    exact ⟨by simp [keys], by simp⟩
  · rintro ⟨hkeys, hvalues⟩
    induction fs generalizing gs with
    | nil => simpa [keys] using hkeys
    | cons field fs ih =>
      cases gs with
      | nil => cases hkeys
      | cons field' gs =>
        obtain ⟨hkey, hkeys⟩ := List.cons.inj hkeys
        obtain ⟨hvalue, hvalues⟩ := List.cons.inj hvalues
        rw [ih hkeys hvalues, List.map_cons]
        exact congrArg (· :: _) (Prod.ext hkey hvalue)

namespace Document

/-- The second document is the first with null for every number that is not finite. -/
inductive NonFiniteNulled : Document → Document → Prop where
  | null : NonFiniteNulled .null .null
  | bool (b : Bool) : NonFiniteNulled (.bool b) (.bool b)
  | string (s : String) : NonFiniteNulled (.string s) (.string s)
  | finite (x : Finite) : NonFiniteNulled (.number (.finite x)) (.number (.finite x))
  | infinite (negative : Bool) : NonFiniteNulled (.number (.infinite negative)) .null
  | nan : NonFiniteNulled (.number .nan) .null
  /-- As many elements, one for the other in their order. -/
  | array {items items' : List Document} : List.Forall₂ NonFiniteNulled items items' →
      NonFiniteNulled (.array items) (.array items')
  /-- The same names in their order, and their values one for the other. -/
  | object {fields fields' : Fields Document} : Fields.keys fields' = Fields.keys fields →
      List.Forall₂ NonFiniteNulled (fields.map Prod.snd) (fields'.map Prod.snd) →
      NonFiniteNulled (.object fields) (.object fields')

theorem nonFiniteNulled_array_iff {items : List Document} {d : Document} :
    NonFiniteNulled (.array items) d ↔
      ∃ items', d = .array items' ∧ List.Forall₂ NonFiniteNulled items items' := by
  constructor
  · rintro ⟨⟩
    next items' h => exact ⟨items', rfl, h⟩
  · rintro ⟨items', rfl, h⟩
    exact .array h

theorem nonFiniteNulled_object_iff {fields : Fields Document} {d : Document} :
    NonFiniteNulled (.object fields) d ↔
      ∃ fields', d = .object fields' ∧ Fields.keys fields' = Fields.keys fields ∧
        List.Forall₂ NonFiniteNulled (fields.map Prod.snd) (fields'.map Prod.snd) := by
  constructor
  · rintro ⟨⟩
    next fields' hkeys h => exact ⟨fields', rfl, hkeys, h⟩
  · rintro ⟨fields', rfl, hkeys, h⟩
    exact .object hkeys h

/-- There is one such document. -/
theorem nonFiniteNulled_iff {d d' : Document} :
    d.NonFiniteNulled d' ↔ d' = d.withoutNonFinite := by
  induction d using Tree.induct generalizing d' with
  | null => exact ⟨fun h => by cases h; rfl, fun h => h ▸ .null⟩
  | bool b => exact ⟨fun h => by cases h; rfl, fun h => h ▸ .bool b⟩
  | string s => exact ⟨fun h => by cases h; rfl, fun h => h ▸ .string s⟩
  | number x =>
    cases x with
    | finite x => exact ⟨fun h => by cases h; rfl, fun h => h ▸ .finite x⟩
    | infinite negative => exact ⟨fun h => by cases h; rfl, fun h => h ▸ .infinite negative⟩
    | nan => exact ⟨fun h => by cases h; rfl, fun h => h ▸ .nan⟩
  | array items ih =>
    have hitems {items' : List Document} :
        List.Forall₂ NonFiniteNulled items items' ↔ items' = items.map withoutNonFinite :=
      forall₂_iff_eq_map fun t ht _ => ih t ht
    rw [nonFiniteNulled_array_iff, withoutNonFinite, Tree.bind_array]
    constructor
    · rintro ⟨items', rfl, h⟩
      exact congrArg Tree.array (hitems.1 h)
    · rintro rfl
      exact ⟨_, rfl, hitems.2 rfl⟩
  | object fields ih =>
    have hvalues {fields' : Fields Document} :
        List.Forall₂ NonFiniteNulled (fields.map Prod.snd) (fields'.map Prod.snd) ↔
          fields'.map Prod.snd = (fields.map Prod.snd).map withoutNonFinite := by
      refine forall₂_iff_eq_map ?_
      intro t ht t'
      obtain ⟨field, hfield, rfl⟩ := List.mem_map.1 ht
      exact ih field hfield
    rw [nonFiniteNulled_object_iff, withoutNonFinite, Tree.bind_object]
    constructor
    · rintro ⟨fields', rfl, hkeys, h⟩
      exact congrArg Tree.object (Fields.eq_map_iff.2 ⟨hkeys, hvalues.1 h⟩)
    · rintro rfl
      obtain ⟨hkeys, h⟩ := Fields.eq_map_iff.1 rfl
      exact ⟨_, rfl, hkeys, hvalues.2 h⟩

end Document

namespace Json

/-- **What becoming a JSON tree costs.**  A document that becomes a JSON tree and a document again
comes back with null for every number that is not finite, and otherwise as it was.  In the JSON tree
a finite number is an integer exactly if it is one that 64 bits hold and is not the negative zero;
the integer is then the value of the number, and what converting the number to 64 bits gives.  Every
other finite number stays as it is. -/
theorem conversion_exact :
    (∀ d d' : Document, d.NonFiniteNulled d' ↔ toDocument (ofDocument d) = d') ∧
      ∀ x : Finite,
        ((∃ n, ofDocument (.number (.finite x)) = .number (.integer n)) ↔ x.IsInt64) ∧
        (∀ n, ofDocument (.number (.finite x)) = .number (.integer n) →
          n = x.value ∧ x.toInt64.toInt = n) ∧
        (¬ x.IsInt64 → ofDocument (.number (.finite x)) = .number (.real x)) := by
  refine ⟨?_, ?_⟩
  · intro d d'
    rw [Document.nonFiniteNulled_iff, toDocument_ofDocument, eq_comm]
  · intro x
    have hform : ofDocument (.number (.finite x)) = .number (.ofFinite x) := rfl
    have hinteger (n : Int) : ofDocument (.number (.finite x)) = .number (.integer n) ↔
        x.value = n ∧ x.IsInt64 := by
      rw [hform, Tree.number.injEq, ofFinite_eq_integer_iff]
    refine ⟨?_, ?_, ?_⟩
    · simp only [hinteger]
      constructor
      · rintro ⟨n, -, hx⟩
        exact hx
      · intro hx
        obtain ⟨n, hn⟩ := hx.1
        exact ⟨n, hn, hx⟩
    · intro n hn
      obtain ⟨hvalue, hx⟩ := (hinteger n).1 hn
      obtain ⟨hexact, hlow, hhigh, -⟩ :=
        integer?_eq_some_iff.1 (integer?_eq_some_iff_value.2 ⟨hvalue, hx⟩)
      exact ⟨hvalue.symm, Finite.toInt_toInt64 hexact hlow hhigh⟩
    · intro hx
      rw [hform, ofFinite_of_not_isInt64 hx]

/-- The two ends of the range. -/
example : integer? ⟨true, 2 ^ 63 * unitsPerOne, by decide +kernel⟩ = some (-2 ^ 63) ∧
    integer? ⟨false, 2 ^ 63 * unitsPerOne, by decide +kernel⟩ = none := by decide +kernel

end Json

end DocPath
