import DocPath.Number.Binary64

/-!
# Interchange formats

The bits of a number are its sign, an exponent field and a fraction field.  In 64 bits the fields
have 11 and 52 bits, in 32 bits they have 8 and 23.  An exponent field of zeros marks the magnitudes
below the first full-length one, an exponent field of ones the infinities and what is no number.
-/

namespace DocPath.Double

/-- The number with these fields in a format whose exponent field is below `top`, whose fraction
field has `width` bits, and whose smallest positive magnitude is `unit`. -/
def ofBitFields (top width unit : Nat) (negative : Bool) (exponent fraction : Nat) : Double :=
  if exponent = top then
    if fraction = 0 then infinite negative else nan
  else if exponent = 0 then ofUnits negative (fraction * unit)
  else ofUnits negative ((Nat.pow 2 width + fraction) * Nat.pow 2 (exponent - 1) * unit)

/-- The number with these 64 bits. -/
def ofBits (bits : UInt64) : Double :=
  let n := bits.toNat
  ofBitFields 2047 52 1 (Nat.pow 2 63 ≤ n) (n / Nat.pow 2 52 % 2048) (n % Nat.pow 2 52)

/-- The number with these 32 bits. -/
def ofBits32 (bits : UInt32) : Double :=
  let n := bits.toNat
  ofBitFields 255 23 (Nat.pow 2 925) (Nat.pow 2 31 ≤ n) (n / Nat.pow 2 23 % 256) (n % Nat.pow 2 23)

/-- The exponent and fraction fields of a magnitude, one behind the other.  The leading bit of a
full-length magnitude is not written but carries into the exponent. -/
def magnitudeBits (u : Nat) : Nat := (u.log2 - 52) * Nat.pow 2 52 + u / spacing u

/-- The 64 bits of a number, or nothing for what is no number. -/
def toBits? : Double → Option UInt64
  | finite x => some (signed x.negative (magnitudeBits x.units))
  | infinite negative => some (signed negative (2047 * Nat.pow 2 52))
  | nan => none
where
  /-- Puts the sign before the other bits. -/
  signed (negative : Bool) (rest : Nat) : UInt64 :=
    UInt64.ofNat (if negative then Nat.pow 2 63 + rest else rest)

end DocPath.Double
