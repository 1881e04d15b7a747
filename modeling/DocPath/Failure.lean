import DocPath.Json.Problem
import DocPath.Path.Read
import DocPath.Tree.Fault

/-!
# Failures

All that can go wrong, in one type, with the words for it.  A failure that concerns a path names
it.
-/

namespace DocPath

/-- Why there is no answer. -/
inductive Failure where
  /-- A path text breaks the grammar. -/
  | path (text : String) (fault : PathFault)
  /-- A walk along the path of this name fails. -/
  | walk (name : String) (fault : Fault)
  /-- A text is not a JSON text. -/
  | json (fault : Json.Fault)
deriving DecidableEq, Repr

namespace Failure

/-- The words for a failure. -/
def message : Failure → String
  | path text fault =>
    about text ("parse error at byte " ++ String.ofList (Text.natDigits fault.position) ++ ": " ++
      fault.flaw.message)
  | walk name fault => about name fault.message
  | json fault => "JSON error: " ++ fault.message
where
  /-- Says which path the words are about. -/
  about (name words : String) : String := "path '" ++ name ++ "': " ++ words

/-- The path that a failure names. -/
def path? : Failure → Option String
  | path text _ => some text
  | walk name _ => some name
  | json _ => none

end Failure

end DocPath
