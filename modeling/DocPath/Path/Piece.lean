import DocPath.Path.Basic
import DocPath.Text.Basic
import DocPath.Text.Cut

/-!
# The pieces of a path text

A path text is cut into pieces that make it up completely: dots, keys, bracket groups, and the
text that belongs nowhere.  `Piece.ofText` does the cutting and never fails; whether a piece means
a segment (`Piece.segment?`) and whether it breaks the grammar (`Piece.flaw?`) are questions about
one piece at a time.  A piece that breaks the grammar is a flaw for a strict reader, and a lenient
reader passes over it.

A part between two dots is an optional key followed by bracket groups.  The key ends at the first
`[`, a group at the first `]` behind its `[`.  Hence `]` is an ordinary character of a key, `[` is
an ordinary character inside a group, and a dot always separates.

`locate` gives every piece the number of bytes before it.
-/

namespace DocPath

/-! ## 1. What a bracket group means -/

/-- The segment that the text inside brackets stands for: `*`, or an integer that 64 bits hold. -/
def Segment.ofGroup? (content : List Char) : Option Segment :=
  if content = ['*'] then some .wildcard else (Text.readInt64? content).map .index

/-! ## 2. Pieces and flaws -/

/-- A stretch of a path text. -/
inductive Piece where
  /-- The dot between two parts. -/
  | dot
  /-- The part that has no text. -/
  | vacant
  /-- The text of a part before its first `[`. -/
  | key (name : List Char)
  /-- A `[`, the text up to the next `]`, and that `]`. -/
  | group (content : List Char)
  /-- Text between two groups of a part. -/
  | stray (text : List Char)
  /-- Text after the last group of a part. -/
  | trailing (text : List Char)
  /-- A `[` with no `]` after it, and the rest of its part. -/
  | unclosed (rest : List Char)
deriving DecidableEq, Repr

/-- How a piece breaks the grammar. -/
inductive Flaw where
  | emptyPart
  | textBetweenGroups
  | textAfterGroups
  | unclosedGroup
  | notAnIndex (content : String)
deriving DecidableEq, Repr

namespace Flaw

/-- The words for a flaw. -/
def message : Flaw → String
  | emptyPart => "empty path segment"
  | textBetweenGroups => "unexpected text between bracket groups"
  | textAfterGroups => "unexpected text after ']'"
  | unclosedGroup => "unclosed '['"
  | notAnIndex content =>
    "expected an integer or '*' inside brackets, found '" ++ content ++ "'"

/-- How many bytes into its piece a flaw is reported: behind the `[` when the content of a group
is at fault, and at the beginning of the piece otherwise. -/
def lead : Flaw → Nat
  | notAnIndex _ => 1
  | _ => 0

end Flaw

namespace Piece

/-- The characters that the piece covers. -/
def chars : Piece → List Char
  | dot => ['.']
  | vacant => []
  | key name => name
  | group content => '[' :: (content ++ [']'])
  | stray text => text
  | trailing text => text
  | unclosed rest => '[' :: rest

/-- The segment that the piece stands for, if it stands for one. -/
def segment? : Piece → Option Segment
  | key name => some (.key (String.ofList name))
  | group content => Segment.ofGroup? content
  | _ => none

/-- How the piece breaks the grammar, if it does. -/
def flaw? : Piece → Option Flaw
  | dot => none
  | vacant => some .emptyPart
  | key _ => none
  | group content =>
    if (Segment.ofGroup? content).isSome then none else some (.notAnIndex (String.ofList content))
  | stray _ => some .textBetweenGroups
  | trailing _ => some .textAfterGroups
  | unclosed _ => some .unclosedGroup

/-! ## 3. Cutting a text into pieces -/

/-- The pieces of a part from its first `[` on. -/
def groups : List Char → List Piece
  | [] => []
  | c :: cs =>
    if c = '[' then
      match _h : Text.cut? ']' cs with
      | none => [unclosed cs]
      | some (content, after) => group content :: groups after
    else
      match _h : Text.cut? '[' cs with
      | none => [trailing (c :: cs)]
      | some (before, after) => stray (c :: before) :: groups ('[' :: after)
termination_by cs => cs.length
decreasing_by
  all_goals
    have := Text.length_lt_of_cut? _h
    simp only [List.length_cons]
    omega

/-- The pieces of the text between two dots. -/
def ofPart (part : List Char) : List Piece :=
  match Text.cut? '[' part with
  | none => if part = [] then [vacant] else [key part]
  | some (name, after) => (if name = [] then [] else [key name]) ++ groups ('[' :: after)

/-- The pieces of a path text, in order. -/
def ofText (text : List Char) : List Piece :=
  [dot].intercalate ((text.splitOn '.').map ofPart)

/-- A text without dots is one part. -/
theorem ofText_of_not_mem {part : List Char} (h : '.' ∉ part) : ofText part = ofPart part := by
  rw [ofText, List.splitOn_eq_singleton h, List.map_singleton, List.intercalate_singleton]

/-- The first dot of a text ends its first part. -/
theorem ofText_part_join {part : List Char} (h : '.' ∉ part) (rest : List Char) :
    ofText (part ++ '.' :: rest) = ofPart part ++ dot :: ofText rest := by
  have hrest : (rest.splitOn '.').map ofPart ≠ [] := by
    rw [ne_eq, List.map_eq_nil_iff]
    exact List.splitOn_ne_nil '.' rest
  rw [ofText, Text.splitOn_join h, List.map_cons, List.intercalate_cons_of_ne_nil hrest,
    List.append_assoc, List.singleton_append]
  rfl

/-! ## 4. The pieces make up the text -/

/-- The characters of a list of pieces. -/
def allChars (ps : List Piece) : List Char := ps.flatMap chars

theorem allChars_groups (cs : List Char) : allChars (groups cs) = cs := by
  fun_induction groups cs with
  | case1 => rfl
  | case2 cs _ => simp [allChars, chars]
  | case3 cs content after h ih =>
    have whole := (Text.cut?_eq_some_iff.1 h).1
    simp only [allChars, List.flatMap_cons, chars] at ih ⊢
    rw [ih, whole]
    simp
  | case4 c cs _ _ => simp [allChars, chars]
  | case5 c cs _ before after h ih =>
    have whole := (Text.cut?_eq_some_iff.1 h).1
    simp only [allChars, List.flatMap_cons, chars] at ih ⊢
    rw [ih, whole]
    simp

theorem allChars_ofPart (part : List Char) : allChars (ofPart part) = part := by
  unfold ofPart
  split
  · split
    · next h => simp [h, allChars, chars]
    · simp [allChars, chars]
  · next name after h =>
    have whole := (Text.cut?_eq_some_iff.1 h).1
    have rest := allChars_groups ('[' :: after)
    simp only [allChars, List.flatMap_append] at rest ⊢
    rw [rest, whole]
    split
    · next hname => simp [hname]
    · simp [chars]

/-- No character of a path text is lost between the pieces, and none is added. -/
theorem allChars_ofText (text : List Char) : allChars (ofText text) = text := by
  induction text using Text.induct_join (c := '.') with
  | single part hdot => rw [ofText_of_not_mem hdot, allChars_ofPart]
  | join part rest hdot ih =>
    have hpart := allChars_ofPart part
    simp only [allChars, ofText_part_join hdot, List.flatMap_append, List.flatMap_cons]
      at ih hpart ⊢
    rw [hpart, ih]
    rfl

/-! ## 5. Where the pieces are -/

/-- Every piece with the number of bytes before it, when `before` bytes precede them all. -/
def locate (before : Nat) : List Piece → List (Nat × Piece)
  | [] => []
  | p :: ps => (before, p) :: locate (before + Text.byteCount p.chars) ps

end Piece

end DocPath
