import DocPath.Text.Basic

/-!
# Places in the file system

A place is told by the steps that lead to it, from the working directory or from the root.  Steps
upward cancel steps downward, so a place has one description: from the working directory as many
steps up as it takes and then only steps down, from the root only steps down.
-/

namespace DocPath.Cli

/-- The step to the directory that holds a directory. -/
def upward : List Char := ['.', '.']

/-- The step that stays. -/
def inPlace : List Char := ['.']

/-- A place in the file system. -/
structure Place where
  /-- Whether the steps begin at the root; if not, they begin at the working directory. -/
  fromRoot : Bool
  /-- The steps, the last one first. -/
  steps : List (List Char)
deriving DecidableEq, Repr

namespace Place

/-- The directory that holds a place; the root holds itself. -/
def up (place : Place) : Place :=
  match place.steps with
  | [] => if place.fromRoot then place else { place with steps := [upward] }
  | step :: before =>
    { place with steps := if step = upward then upward :: place.steps else before }

/-- The place of that name in the directory at a place. -/
def down (name : List Char) (place : Place) : Place := { place with steps := name :: place.steps }

/-- The text that tells a place: the steps with slashes between them, after a slash if they begin at
the root. -/
def text (place : Place) : String :=
  let steps := String.ofList (['/'].intercalate place.steps.reverse)
  if place.fromRoot then "/" ++ steps else steps

/-- Whether a place lies on the way up from where its steps begin, where all is directories. -/
def isAbove (place : Place) : Bool := place.steps.all (· = upward)

theorem isAbove_down {name : List Char} (h : name ≠ upward) (place : Place) :
    (place.down name).isAbove = false := by
  simp [isAbove, down, h]

end Place

end DocPath.Cli
