import DocPath.Number.Binary64
import DocPath.Text.Integer

/-!
# Shortest decimals

`Decimal.shortest` finds the decimal with the fewest digits that rounds to a given magnitude, and
the nearest of those to it.  It tries one power of ten after the other as the place of the last
digit, from coarse to fine.  On each grid only the two neighbours of the magnitude can round to it
if any decimal can, so the first grid where one of them does has the answer; where both do, the
nearer one is taken, and the even one if they are equally near.

`Decimal.chars` lays a decimal out: with all its places if the first digit is not too far from the
point, and with an exponent otherwise.
-/

namespace DocPath

/-- The number `digits * 10 ^ exponent`. -/
structure Decimal where
  digits : Nat
  exponent : Int
deriving DecidableEq, Repr

namespace Decimal

/-! ## 1. The value of a decimal -/

/-- The numerator of the decimal in units. -/
def num (d : Decimal) : Nat := d.digits * Nat.pow 10 d.exponent.toNat * unitsPerOne

/-- The denominator of the decimal in units. -/
def den (d : Decimal) : Nat := Nat.pow 10 (-d.exponent).toNat

/-- The magnitude that the decimal rounds to. -/
def units (d : Decimal) : Nat := roundUnits d.num d.den

/-! ## 2. The shortest decimal of a magnitude -/

/-- The last decimal of the grid `10 ^ e` that is not above `u` units. -/
def floor (e : Int) (u : Nat) : Decimal :=
  ⟨u * Nat.pow 10 (-e).toNat / (Nat.pow 10 e.toNat * unitsPerOne), e⟩

/-- The next decimal of the same grid. -/
def succ (d : Decimal) : Decimal := ⟨d.digits + 1, d.exponent⟩

/-- The nearer of two grid neighbours around `u` units, `d` and the one after it; the even one if
they are equally near. -/
def nearer (d : Decimal) (u : Nat) : Decimal :=
  let twice := 2 * u * d.den
  let middle := d.num + d.succ.num
  if twice < middle ∨ twice = middle ∧ d.digits % 2 = 0 then d else d.succ

/-- The decimal of the grid `10 ^ e` that rounds to `u` units and is nearest to it. -/
def onGrid? (e : Int) (u : Nat) : Option Decimal :=
  let d := floor e u
  if d.units = u then
    if d.succ.units = u then some (nearer d u) else some d
  else if d.succ.units = u then some d.succ else none

/-- The first hit on the grids from `10 ^ e` down to `10 ^ (e - tries)`. -/
def search (u : Nat) : Nat → Int → Option Decimal
  | 0, e => onGrid? e u
  | tries + 1, e => onGrid? e u <|> search u tries (e - 1)

/-- A power of ten above `u` units: `log2 u` bits, at `30103 / 100000` digits a bit. -/
def ceiling (u : Nat) : Int := ((u.log2 : Int) - 1073) * 30103 / 100000 + 1

/-- The shortest decimal that rounds to `u` units.  A number of units is itself a decimal, which is
what is left if the grids hold none. -/
def shortest (u : Nat) : Decimal :=
  if u = 0 then ⟨0, 0⟩
  else (search u 20 (ceiling u)).getD ⟨u * Nat.pow 5 1074, -1074⟩

/-! ## 3. Layout -/

/-- The least and the greatest place of the first digit for which all places are written. -/
def leastPlain : Int := -5

@[inherit_doc leastPlain]
def greatestPlain : Int := 15

/-- The decimal with all its places, of which at least one is behind the point.  The first digit
stands at the place `first`, the power of ten it counts. -/
def plain (digits : List Char) (first : Int) : List Char :=
  if first < 0 then ['0', '.'] ++ List.replicate (-first - 1).toNat '0' ++ digits
  else
    let whole := first.toNat + 1
    if digits.length ≤ whole then
      digits ++ List.replicate (whole - digits.length) '0' ++ ['.', '0']
    else digits.take whole ++ ['.'] ++ digits.drop whole

/-- The decimal as a number with one digit before the point and a power of ten. -/
def scientific (digits : List Char) (first : Int) : List Char :=
  let fraction := if digits.length ≤ 1 then [] else '.' :: digits.drop 1
  let sign := if first < 0 then '-' else '+'
  digits.take 1 ++ fraction ++ ['e', sign] ++ Text.natDigits first.natAbs

/-- The characters of a decimal. -/
def chars (d : Decimal) : List Char :=
  let digits := Text.natDigits d.digits
  let first := d.exponent + digits.length - 1
  if leastPlain ≤ first ∧ first ≤ greatestPlain then plain digits first
  else scientific digits first

end Decimal

namespace Finite

/-- The shortest decimal that is read back as the number, with its sign. -/
def chars (x : Finite) : List Char :=
  if x.negative then '-' :: (Decimal.shortest x.units).chars else (Decimal.shortest x.units).chars

end Finite

end DocPath
