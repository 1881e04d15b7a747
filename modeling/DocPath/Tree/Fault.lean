import DocPath.Path.Basic
import DocPath.Tree.Basic

/-!
# Why a walk along a path fails
-/

namespace DocPath

/-- What stops a walk. -/
inductive Fault where
  /-- A key meets a node that has no fields. -/
  | notObject (found : Kind)
  /-- An index or a wildcard meets a node that has no elements. -/
  | notArray (found : Kind)
  /-- An index meets an array that has no element at that place. -/
  | outOfRange (place : Int64) (length : Nat)
  /-- An assignment has no segment to assign through. -/
  | emptyPath
  /-- An assignment meets a wildcard. -/
  | wildcard
deriving DecidableEq, Repr

/-- The words for a fault. -/
def Fault.message : Fault → String
  | notObject found => "expected an object, found " ++ found.name
  | notArray found => "expected an array, found " ++ found.name
  | outOfRange place length =>
    "index " ++ String.ofList (Text.intDigits place.toInt) ++
      " out of range for array of length " ++ String.ofList (Text.natDigits length)
  | emptyPath => "cannot assign through an empty path"
  | wildcard => "wildcard segments cannot be assigned through"

/-- The element at a place of a list; there is none at a negative place. -/
def element? {α : Type} (items : List α) (place : Int64) : Option α :=
  match place.toInt with
  | .ofNat n => items[n]?
  | .negSucc _ => none

end DocPath
