/-!
# Text as characters, measured in bytes

Paths and JSON documents are read as lists of characters, and every position that this library
reports is a number of UTF-8 bytes.  This module holds the measure that ties the two together
(`byteCount`) and the place in a document that a number of bytes leads to (`Position`).
-/

namespace DocPath.Text

/-! ## 1. Bytes -/

/-- The number of bytes that the characters take in UTF-8. -/
def byteCount (cs : List Char) : Nat := cs.foldr (fun c bytes => c.utf8Size + bytes) 0

@[simp] theorem byteCount_nil : byteCount [] = 0 := rfl

@[simp] theorem byteCount_cons (c : Char) (cs : List Char) :
    byteCount (c :: cs) = c.utf8Size + byteCount cs := rfl

@[simp] theorem byteCount_append (cs ds : List Char) :
    byteCount (cs ++ ds) = byteCount cs + byteCount ds := by
  induction cs with
  | nil => simp
  | cons c cs ih => simp [ih, Nat.add_assoc]

/-- The bytes of a string are those of its characters. -/
theorem byteCount_toList (s : String) : byteCount s.toList = s.utf8ByteSize := by
  have hlist (cs : List Char) : byteCount cs = (String.ofList cs).utf8ByteSize := by
    induction cs with
    | nil => rfl
    | cons c cs ih =>
      rw [String.ofList_cons, String.utf8ByteSize_append, String.utf8ByteSize_singleton,
        byteCount_cons, ih]
  rw [hlist, String.ofList_toList]

/-- A text without characters is the only one that takes no bytes. -/
theorem byteCount_eq_zero_iff {cs : List Char} : byteCount cs = 0 ↔ cs = [] := by
  cases cs with
  | nil => simp
  | cons c cs =>
    have := c.utf8Size_pos
    simp only [byteCount_cons, reduceCtorEq, iff_false]
    omega

/-! ## 2. Lines and columns -/

/-- A place in a text: lines count from one, and the column is the number of bytes since the last
line feed. -/
structure Position where
  line : Nat
  column : Nat
deriving DecidableEq, Repr

namespace Position

/-- The beginning of a text. -/
def start : Position := ⟨1, 0⟩

/-- Moves over the first `bytes` bytes of the text, which may end inside a character. -/
def advance (p : Position) : Nat → List Char → Position
  | 0, _ => p
  | _, [] => p
  | bytes, c :: cs =>
    if c = '\n' then advance ⟨p.line + 1, 0⟩ (bytes - 1) cs
    else if c.utf8Size ≤ bytes then advance ⟨p.line, p.column + c.utf8Size⟩ (bytes - c.utf8Size) cs
    else ⟨p.line, p.column + bytes⟩

/-- The place that the first `bytes` bytes of the text lead to. -/
def after (bytes : Nat) (cs : List Char) : Position := start.advance bytes cs

end Position

end DocPath.Text
