import DocPath.Cli.Place
import DocPath.Fields.Basic

/-!
# Files

The files that a command can reach, and what a file name leads to.  A name is a path of steps with
slashes between them; a slash before the steps stands for the root, and a slash behind them says
that a directory is meant.  All steps but the last have to lead to directories.

Writing either puts the whole text into the file or fails and leaves all files as they were.

Every name leads to a file, to a directory or to nothing.  The standard streams and other devices
are no files: where an operating system has a name for one, as `/dev/stdout` is on some, that name
is like any other here, and a text that is written under it is kept and is found there again.  It
does not become part of what a run shows.
-/

namespace DocPath.Cli

/-- Why a file or the standard input cannot be read or written. -/
inductive FileFault where
  | missing
  | isDirectory
  | notDirectory
  | nameTooLong
  | notText
  | other (reason : String)
deriving DecidableEq, Repr

/-- The words for a file fault. -/
def FileFault.message : FileFault → String
  | missing => "No such file or directory (os error 2)"
  | isDirectory => "Is a directory (os error 21)"
  | notDirectory => "Not a directory (os error 20)"
  | nameTooLong => "File name too long (os error 36)"
  | notText => "stream did not contain valid UTF-8"
  | other reason => reason

/-- What is read: a text, or bytes that are no text in UTF-8. -/
abbrev Content := Except FileFault String

/-- The files, by the texts of their places.  A directory is there if it holds a file, or if it is
the working directory or on the way up from it. -/
abbrev Files := Fields Content

/-- What a file is opened for. -/
inductive Purpose where
  | reading
  | writing
deriving DecidableEq, Repr

namespace Files

/-- The most bytes that a step may take. -/
def maxStepBytes : Nat := 255

/-- The most bytes that a file name may take. -/
def maxNameBytes : Nat := 4095

/-- Whether there is a file at a place. -/
def hasFile (files : Files) (place : Place) : Bool := (Fields.get? place.text files).isSome

/-- Whether there is a directory at a place. -/
def hasDirectory (files : Files) (place : Place) : Bool :=
  place.isAbove || (Fields.keys files).any fun key =>
    (place.text.toList ++ ['/']).isPrefixOf key.toList

/-- Follows steps that all have to lead to directories. -/
def follow (files : Files) (place : Place) : List (List Char) → Except FileFault Place
  | [] => .ok place
  | step :: steps =>
    if step = inPlace then follow files place steps
    else if step = upward then follow files place.up steps
    else if maxStepBytes < Text.byteCount step then .error .nameTooLong
    else if files.hasFile (place.down step) then .error .notDirectory
    else if files.hasDirectory (place.down step) then follow files (place.down step) steps
    else .error .missing

/-- Takes the last step, which has to lead to a file; to write, it may also lead to nothing.  If a
slash comes after it, a directory is meant, and a file to write cannot be one, wherever it is. -/
def arrive (files : Files) (purpose : Purpose) (slash : Bool) (step : List Char) (place : Place) :
    Except FileFault Place :=
  let target := place.down step
  if step = inPlace ∨ step = upward then .error .isDirectory
  else if purpose = .writing ∧ slash then .error .isDirectory
  else if maxStepBytes < Text.byteCount step then .error .nameTooLong
  else if files.hasFile target then if slash then .error .notDirectory else .ok target
  else if files.hasDirectory target then .error .isDirectory
  else if purpose = .writing then .ok target
  else .error .missing

/-- The place of the file that a name stands for, if it can be opened. -/
def locate (files : Files) (purpose : Purpose) (name : String) : Except FileFault Place :=
  let chars := name.toList
  let steps := (chars.splitOn '/').filter (· ≠ [])
  if chars = [] then .error .missing
  else if maxNameBytes < Text.byteCount chars then .error .nameTooLong
  else
    match steps.getLast? with
    | none => .error .isDirectory
    | some last =>
      match files.follow ⟨chars.head? = some '/', []⟩ steps.dropLast with
      | .error fault => .error fault
      | .ok place => files.arrive purpose (chars.getLast? = some '/') last place

/-- The content of a file. -/
def read (files : Files) (name : String) : Content :=
  match files.locate .reading name with
  | .error fault => .error fault
  | .ok place => (Fields.get? place.text files).getD (.error .missing)

/-- Puts a text into a file, which is made if it is not there. -/
def write (files : Files) (name text : String) : Except FileFault Files :=
  match files.locate .writing name with
  | .error fault => .error fault
  | .ok place => .ok (Fields.insert place.text (.ok text) files)

end Files

end DocPath.Cli
