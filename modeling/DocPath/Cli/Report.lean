import DocPath.Cli.Files
import DocPath.Failure

/-!
# Error reports

A report says what was being done and why it failed, from the nearest cause to the last one.  One
cause is indented, several are numbered as well, and further lines of a cause are indented as far as
its first line.
-/

namespace DocPath.Cli

/-- What was being done and the causes of its failure. -/
structure Report where
  doing : String
  causes : List String
deriving DecidableEq, Repr

namespace Report

/-- The words with blanks after every line feed. -/
def hanging (width : Nat) (words : List Char) : List Char :=
  words.flatMap fun c => if c = '\n' then '\n' :: List.replicate width ' ' else [c]

/-- The lines of the numbered causes from number `n` on. -/
def numbered (n : Nat) : List String → List Char
  | [] => []
  | cause :: causes =>
    let digits := Text.natDigits n
    List.replicate (5 - digits.length) ' ' ++ digits ++ [':', ' '] ++ hanging 7 cause.toList ++
      ['\n'] ++ numbered (n + 1) causes

/-- The lines of the causes. -/
def causeLines : List String → List Char
  | [cause] => List.replicate 4 ' ' ++ hanging 4 cause.toList ++ ['\n']
  | causes => numbered 0 causes

/-- The text of a report. -/
def text (r : Report) : String :=
  "Error: " ++ r.doing ++ "\n\nCaused by:\n" ++ String.ofList (causeLines r.causes)

/-- The causes that a failure amounts to: a problem with a JSON text has a cause of its own. -/
def causesOf (failure : Failure) : List String :=
  match failure with
  | .json fault => [failure.message, fault.message]
  | _ => [failure.message]

end Report

end DocPath.Cli
