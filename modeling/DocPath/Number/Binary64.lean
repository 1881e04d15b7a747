/-!
# Binary floating point numbers of 64 bits

A finite number is a sign and a magnitude, and the magnitude is a natural number of units, where
one unit is the smallest positive magnitude, `2 ^ -1074`.  Not every natural number is a magnitude:
only 53 bits are significant (`Representable`).  Arithmetic is therefore exact arithmetic on natural
numbers followed by one rounding, `roundUnits`, to the nearest magnitude and to the even one of two
that are equally near.
-/

namespace DocPath

/-! ## 1. Magnitudes -/

/-- The number one in units. -/
def unitsPerOne : Nat := Nat.pow 2 1074

/-- The least power of two that is too large for a magnitude, `2 ^ 1024`, in units. -/
def unitsLimit : Nat := Nat.pow 2 2098

/-- The distance between neighbouring magnitudes of the same length as `u`: the power of two that
leaves 53 significant bits, and at least one unit. -/
def spacing (u : Nat) : Nat := Nat.pow 2 (u.log2 - 52)

/-- A number of units that is a magnitude. -/
def Representable (u : Nat) : Prop := u < unitsLimit ∧ u % spacing u = 0

instance (u : Nat) : Decidable (Representable u) :=
  inferInstanceAs (Decidable (u < unitsLimit ∧ u % spacing u = 0))

/-! ## 2. Numbers -/

/-- A finite number; zero has two signs. -/
structure Finite where
  negative : Bool
  /-- The magnitude. -/
  units : Nat
  representable : Representable units
deriving DecidableEq, Repr

/-- A number, an infinity, or no number at all. -/
inductive Double where
  | finite (x : Finite)
  | infinite (negative : Bool)
  | nan
deriving DecidableEq, Repr

namespace Double

/-- The number of the given sign and magnitude; infinite if it is no magnitude. -/
def ofUnits (negative : Bool) (u : Nat) : Double :=
  if h : Representable u then finite ⟨negative, u, h⟩ else infinite negative

/-- Equality as arithmetic sees it: the zeros are equal, and what is no number equals nothing. -/
def eq : Double → Double → Bool
  | finite x, finite y => x.units == y.units && (x.negative == y.negative || x.units == 0)
  | infinite s, infinite t => s == t
  | _, _ => false

end Double

/-! ## 3. Rounding -/

/-- `num / den` rounded to a natural number: the nearest, and the even one of two. -/
def roundDiv (num den : Nat) : Nat :=
  let below := num / den
  let rest := num % den
  if 2 * rest < den ∨ 2 * rest = den ∧ below % 2 = 0 then below else below + 1

/-- `num / den` units rounded to 53 significant bits: the nearest, and the even one of two. -/
def roundUnits (num den : Nat) : Nat :=
  roundDiv num (den * spacing (num / den)) * spacing (num / den)

/-- The magnitude nearest to a natural number. -/
def unitsOfNat (n : Nat) : Nat := roundUnits (n * unitsPerOne) 1

/-- The magnitude nearest to a power of ten. -/
def unitsOfPow10 (k : Nat) : Nat := unitsOfNat (Nat.pow 10 k)

/-- The rounded product of two magnitudes. -/
def mulUnits (u v : Nat) : Nat := roundUnits (u * v) unitsPerOne

/-- The rounded quotient of two magnitudes. -/
def divUnits (u v : Nat) : Nat := roundUnits (u * unitsPerOne) v

/-- The number nearest to an integer. -/
def Double.ofInt (n : Int) : Double := Double.ofUnits (n < 0) (unitsOfNat n.natAbs)

end DocPath
