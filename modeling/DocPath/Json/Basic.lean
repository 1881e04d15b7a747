import DocPath.Document

/-!
# JSON trees and documents

The numbers of a JSON text are integers of any size that the text can hold, or finite numbers of 64
bits.  `ofDocument` writes a number of a document as an integer where it is one that 64 bits hold
with a sign, and `toDocument` rounds integers.  Zero with a minus sign is no integer, and what is
not finite has no JSON form and becomes null.
-/

namespace DocPath

namespace Json

/-- A number in a JSON tree. -/
inductive Number where
  | integer (n : Int)
  | real (x : Finite)
deriving DecidableEq, Repr

/-- The number that a program computes with. -/
def Number.toDouble : Number → Double
  | integer n => .ofInt n
  | real x => .finite x

/-- The integer that a finite number is, if it lies between `-2 ^ 63` and `2 ^ 63` and is not the
negative zero. -/
def integer? (x : Finite) : Option Int :=
  let whole := x.units / unitsPerOne
  if x.units % unitsPerOne ≠ 0 then none
  else if x.negative then
    if 0 < whole ∧ whole ≤ Nat.pow 2 63 then some (-(whole : Int)) else none
  else if whole < Nat.pow 2 63 then some whole else none

/-- The JSON number that a finite number is written as. -/
def Number.ofFinite (x : Finite) : Number :=
  match integer? x with
  | some n => .integer n
  | none => .real x

end Json

/-- A tree over the numbers of JSON texts. -/
abbrev Json := Tree Json.Number

namespace Json

/-- The document that a JSON tree describes. -/
def toDocument (t : Json) : Document := t.bind fun n => .number n.toDouble

/-- The JSON form of a number. -/
def ofDouble : Double → Json
  | .finite x => .number (.ofFinite x)
  | .infinite _ => .null
  | .nan => .null

/-- The JSON form of a document. -/
def ofDocument (d : Document) : Json := d.bind ofDouble

end Json

end DocPath
