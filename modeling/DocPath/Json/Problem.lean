import DocPath.Text.Basic
import DocPath.Text.Integer

/-!
# What is wrong with a JSON text

Reading stops at the first problem.  A reader knows the problem and how many bytes it has not
consumed (`Stop`); in relation to the whole text that is a line and a column (`Fault`).
-/

namespace DocPath.Json

/-- Why a text is not a JSON text. -/
inductive Problem where
  | endInValue
  | endInArray
  | endInObject
  | endInString
  | noValue
  | unknownWord
  | noArrayEnd
  | noObjectEnd
  | noColon
  | keyNotString
  | commaAtEnd
  | textAfterValue
  | tooDeep
  | badNumber
  | numberTooLarge
  | badEscape
  | loneSurrogate
  | halfSurrogate
  | controlCharacter
deriving DecidableEq, Repr

namespace Problem

/-- The words for a problem. -/
def message : Problem → String
  | endInValue => "EOF while parsing a value"
  | endInArray => "EOF while parsing a list"
  | endInObject => "EOF while parsing an object"
  | endInString => "EOF while parsing a string"
  | noValue => "expected value"
  | unknownWord => "expected ident"
  | noArrayEnd => "expected `,` or `]`"
  | noObjectEnd => "expected `,` or `\x7d`"
  | noColon => "expected `:`"
  | keyNotString => "key must be a string"
  | commaAtEnd => "trailing comma"
  | textAfterValue => "trailing characters"
  | tooDeep => "recursion limit exceeded"
  | badNumber => "invalid number"
  | numberTooLarge => "number out of range"
  | badEscape => "invalid escape"
  | loneSurrogate => "lone leading surrogate in hex escape"
  | halfSurrogate => "unexpected end of hex escape"
  | controlCharacter => "control character (\\u0000-\\u001F) found while parsing a string"

/-- Whether the text is too short rather than wrong. -/
def isEnd : Problem → Bool
  | endInValue => true
  | endInArray => true
  | endInObject => true
  | endInString => true
  | _ => false

end Problem

/-- Where reading stops: a problem, and the number of bytes that are not consumed. -/
structure Stop where
  problem : Problem
  unread : Nat
deriving DecidableEq, Repr

namespace Stop

/-- The problem lies right before the rest of the text. -/
def before (problem : Problem) (rest : List Char) : Stop := ⟨problem, Text.byteCount rest⟩

/-- The problem lies in the first byte of the rest; if there is none, it is the end of the text. -/
def within (problem : Problem) (rest : List Char) : Stop := ⟨problem, Text.byteCount rest - 1⟩

end Stop

/-- A problem and its place in the text. -/
structure Fault where
  problem : Problem
  position : Text.Position
deriving DecidableEq, Repr

namespace Fault

/-- The place of a stop in a text. -/
def ofStop (text : List Char) (stop : Stop) : Fault :=
  ⟨stop.problem, .after (Text.byteCount text - stop.unread) text⟩

/-- The words for a problem at its place. -/
def message (fault : Fault) : String :=
  fault.problem.message ++ " at line " ++ String.ofList (Text.natDigits fault.position.line) ++
    " column " ++ String.ofList (Text.natDigits fault.position.column)

end Fault

end DocPath.Json
