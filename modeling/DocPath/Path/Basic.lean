import DocPath.Text.Integer

/-!
# Paths and their canonical text

A path says how to walk from the root of a document to a node in it: into a field of an object
(`key`), into an element of an array (`index`), or over all elements of an array (`wildcard`).

The canonical text of a path puts a dot before every key but one that comes first, and indices and
wildcards in brackets: `users[0].name`, `[3][*].x`.  `Plain` marks the paths whose keys survive
being written this way.
-/

namespace DocPath

/-! ## 1. Segments -/

/-- One step of a path. -/
inductive Segment where
  /-- Into the field of this name. -/
  | key (name : String)
  /-- Into the element at this place, counted from zero.  No element has a negative place. -/
  | index (place : Int64)
  /-- All elements of an array. -/
  | wildcard
deriving DecidableEq, Repr

/-- The steps from the root, outermost first. -/
abbrev Path := List Segment

namespace Segment

/-- The characters of a segment on its own. -/
def chars : Segment → List Char
  | key name => name.toList
  | index place => '[' :: (Text.intDigits place.toInt ++ [']'])
  | wildcard => ['[', '*', ']']

/-- The text of a segment on its own. -/
def print (s : Segment) : String := String.ofList s.chars

/-- What sets a segment off from the one before it: a dot before a key, nothing before a
bracket. -/
def joint : Segment → List Char
  | key _ => ['.']
  | index _ => []
  | wildcard => []

/-- A key that the canonical text keeps apart from its surroundings: not empty, and without the
characters that end a key.  Indices and wildcards are always plain. -/
def Plain : Segment → Prop
  | key name => name ≠ "" ∧ '.' ∉ name.toList ∧ '[' ∉ name.toList
  | index _ => True
  | wildcard => True

instance : DecidablePred Plain
  | key name => inferInstanceAs (Decidable (name ≠ "" ∧ '.' ∉ name.toList ∧ '[' ∉ name.toList))
  | index _ => inferInstanceAs (Decidable True)
  | wildcard => inferInstanceAs (Decidable True)

end Segment

/-! ## 2. Paths -/

namespace Path

/-- The characters of the canonical text. -/
def chars : Path → List Char
  | [] => []
  | s :: rest => s.chars ++ rest.flatMap fun t => t.joint ++ t.chars

/-- The canonical text of a path. -/
def print (p : Path) : String := String.ofList p.chars

/-- Every key of the path survives being written. -/
def Plain (p : Path) : Prop := ∀ s ∈ p, s.Plain

instance (p : Path) : Decidable p.Plain := inferInstanceAs (Decidable (∀ s ∈ p, s.Plain))

end Path

end DocPath
