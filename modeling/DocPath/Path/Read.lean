import DocPath.Path.Piece

/-!
# Reading paths

Both ways of reading keep the segments of the pieces.  The lenient one (`Path.ofText`) takes any
text, for it passes over the pieces that break the grammar.  The strict one (`Path.ofText?`)
refuses a text for the first such piece, and says at which byte it found what.  Where the strict
one accepts, the two agree by definition.

The text without characters is the path without segments in both.
-/

namespace DocPath

/-- The first flaw of a path text and the number of bytes before it. -/
structure PathFault where
  position : Nat
  flaw : Flaw
deriving DecidableEq, Repr

/-- What a reader does with text that breaks the grammar. -/
inductive Reading where
  /-- Passes over it. -/
  | lenient
  /-- Refuses it. -/
  | strict
deriving DecidableEq, Repr, Inhabited

/-- The fault of one located piece. -/
def PathFault.ofPiece? (located : Nat × Piece) : Option PathFault :=
  located.2.flaw?.map fun flaw => ⟨located.1 + flaw.lead, flaw⟩

namespace Path

/-- The path of a text, lenient: pieces that break the grammar are left out. -/
def ofText (text : String) : Path := (Piece.ofText text.toList).filterMap Piece.segment?

/-- The first fault of a text, if it has one. -/
def fault? (text : String) : Option PathFault :=
  if text = "" then none
  else (Piece.locate 0 (Piece.ofText text.toList)).findSome? PathFault.ofPiece?

/-- The path of a text, strict: the first piece that breaks the grammar is an error. -/
def ofText? (text : String) : Except PathFault Path :=
  match fault? text with
  | some fault => .error fault
  | none => .ok (ofText text)

/-- The path of a text in the given way of reading. -/
def read (reading : Reading) (text : String) : Except PathFault Path :=
  match reading with
  | .lenient => .ok (ofText text)
  | .strict => ofText? text

/-- A text that is read strictly is read leniently as the same path. -/
theorem ofText_of_ofText? {text : String} {p : Path} (h : ofText? text = .ok p) :
    ofText text = p := by
  unfold ofText? at h
  split at h
  · cases h
  · exact Except.ok.inj h

end Path

end DocPath
