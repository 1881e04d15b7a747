import DocPath.Json.Quoted
import DocPath.Json.Basic
import DocPath.Number.Decimal

/-!
# Writing JSON trees

There are two layouts.  The compact one has no blanks at all.  The indented one puts every element
and every field on a line of its own, two spaces further in than the array or object around it, and
a space after every colon.  An array or object that holds nothing is written without a line break in
both.
-/

namespace DocPath.Json

/-! ## 1. Layouts -/

/-- How a tree is laid out. -/
inductive Layout where
  | compact
  | indented
deriving DecidableEq, Repr, Inhabited

namespace Layout

/-- What comes before an element, a field or a closing bracket with `level` arrays and objects open
around it. -/
def lineStart (layout : Layout) (level : Nat) : List Char :=
  match layout with
  | compact => []
  | indented => '\n' :: List.replicate (2 * level) ' '

/-- What stands between a name and its value. -/
def colon : Layout → List Char
  | compact => [':']
  | indented => [':', ' ']

end Layout

/-! ## 2. Trees -/

/-- The characters of a number. -/
def Number.chars : Number → List Char
  | integer n => Text.intDigits n
  | real x => x.chars

mutual

/-- The characters of a tree with `level` arrays and objects open around it. -/
def write (layout : Layout) (level : Nat) : Json → List Char
  | .null => ['n', 'u', 'l', 'l']
  | .bool true => ['t', 'r', 'u', 'e']
  | .bool false => ['f', 'a', 'l', 's', 'e']
  | .number x => x.chars
  | .string s => Quoted.write s.toList
  | .array [] => ['[', ']']
  | .array (t :: ts) =>
    '[' :: (layout.lineStart (level + 1) ++ write layout (level + 1) t ++
      writeItems layout (level + 1) ts ++ layout.lineStart level ++ [']'])
  | .object [] => ['{', '}']
  | .object ((k, t) :: fs) =>
    '{' :: (layout.lineStart (level + 1) ++ Quoted.write k.toList ++ layout.colon ++
      write layout (level + 1) t ++ writeFields layout (level + 1) fs ++
      layout.lineStart level ++ ['}'])

/-- The elements after the first one. -/
def writeItems (layout : Layout) (level : Nat) : List Json → List Char
  | [] => []
  | t :: ts =>
    ',' :: (layout.lineStart level ++ write layout level t ++ writeItems layout level ts)

/-- The fields after the first one. -/
def writeFields (layout : Layout) (level : Nat) : List (String × Json) → List Char
  | [] => []
  | (k, t) :: fs =>
    ',' :: (layout.lineStart level ++ Quoted.write k.toList ++ layout.colon ++
      write layout level t ++ writeFields layout level fs)

end

end DocPath.Json
