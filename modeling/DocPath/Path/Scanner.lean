import DocPath.Event
import DocPath.Text.Slice

/-!
# Reading a path with a cursor

A path text can be read without cutting it into pieces first: part by part, with a cursor that moves
over the bracket groups of a part.  Every turn of the loop looks for the next `[` behind the cursor
and for the next `]` behind that, and takes slices between the bytes where it finds them.  The
reader here does exactly that.  It says which slices it takes and where its cursor goes, and it
fails (`none`) as soon as a slice does not exist.

A turn moves the cursor on (`lt_of_turn?`), and so the loop ends.
-/

namespace DocPath.Scanner

open Text (Slice byteCount find? slice?)

/-! ## 1. Outcomes -/

/-- What reading a stretch of a path text comes to, and the events on the way. -/
structure Outcome where
  result : Except PathFault Path
  events : List Event

namespace Outcome

/-- A stretch without a fault. -/
def read (p : Path) : Outcome := ⟨.ok p, []⟩

/-- The strict reader refuses a stretch, and the lenient one goes on behind it. -/
def broken (reading : Reading) (fault : PathFault) (reports : List Event) : Outcome :=
  match reading with
  | .strict => ⟨.error fault, []⟩
  | .lenient => ⟨.ok [], reports⟩

/-- One stretch after another: the second counts if the first is not refused. -/
def andThen (first second : Outcome) : Outcome :=
  match first.result with
  | .error _ => first
  | .ok p => ⟨second.result.map (p ++ ·), first.events ++ second.events⟩

/-- What is next if a stretch is not refused. -/
def next? {α : Type} (outcome : Outcome) (next : α) : Option α :=
  match outcome.result with
  | .error _ => none
  | .ok _ => some next

/-- What is refused is refused whatever follows. -/
theorem andThen_of_error {first : Outcome} {fault : PathFault} (h : first.result = .error fault)
    (second : Outcome) : first.andThen second = first := by rw [andThen, h]

theorem eq_of_next? {α : Type} {outcome : Outcome} {next next' : α}
    (h : outcome.next? next = some next') : next = next' := by
  unfold Outcome.next? at h
  split at h
  · cases h
  · exact Option.some.inj h

end Outcome

/-! ## 2. The bracket groups of a part -/

/-- One turn of the loop over the groups of a part. -/
structure Turn where
  /-- Where the cursor is. -/
  cursor : Nat
  /-- The slices that the turn takes. -/
  slices : List Slice
  outcome : Outcome
  /-- Where the cursor is next, if the loop goes on. -/
  next? : Option Nat

/-- What comes of the text between brackets, the `[` of which is the byte before `position`. -/
def groupOutcome (reading : Reading) (path : String) (position : Nat) (content : List Char) :
    Outcome :=
  match Segment.ofGroup? content with
  | some s => .read [s]
  | none =>
    .broken reading ⟨position, .notAnIndex (String.ofList content)⟩
      [.groupDropped path (String.ofList content)]

/-- What a turn does at the next `[`, with the slice taken before. -/
def groupTurn? (reading : Reading) (path : String) (offset : Nat) (part : List Char) (cursor : Nat)
    (rest : Slice) (opening : Nat) : Option Turn :=
  (slice? part opening (byteCount part)).bind fun opened =>
    match find? ']' opened.chars with
    | none =>
      let outcome := Outcome.broken reading ⟨offset + opening, .unclosedGroup⟩
        [.unclosedDropped path (String.ofList opened.chars)]
      some ⟨cursor, [rest, opened], outcome, none⟩
    | some ahead =>
      (slice? part (opening + 1) (opening + ahead)).map fun content =>
        let outcome := groupOutcome reading path (offset + opening + 1) content.chars
        ⟨cursor, [rest, opened, content], outcome, outcome.next? (opening + ahead + 1)⟩

/-- What the loop does with its cursor at a byte of the part, which lies `offset` bytes into the
path text. -/
def turn? (reading : Reading) (path : String) (offset : Nat) (part : List Char) (cursor : Nat) :
    Option Turn :=
  (slice? part cursor (byteCount part)).bind fun rest =>
    match find? '[' rest.chars with
    | none =>
      let outcome := Outcome.broken reading ⟨offset + cursor, .textAfterGroups⟩
        [.trailingDropped path (String.ofList rest.chars)]
      some ⟨cursor, [rest], outcome, none⟩
    | some gap =>
      if gap > 0 ∧ reading = .strict then
        some ⟨cursor, [rest], ⟨.error ⟨offset + cursor, .textBetweenGroups⟩, []⟩, none⟩
      else groupTurn? reading path offset part cursor rest (cursor + gap)

/-- A turn moves the cursor on. -/
theorem lt_of_turn? {reading : Reading} {path : String} {offset cursor next : Nat}
    {part : List Char} {turn : Turn} (h : turn? reading path offset part cursor = some turn)
    (hnext : turn.next? = some next) : cursor < next := by
  unfold turn? at h
  obtain ⟨rest, -, h⟩ := Option.bind_eq_some_iff.1 h
  split at h
  · cases h
    cases hnext
  · split at h
    · cases h
      cases hnext
    · unfold groupTurn? at h
      obtain ⟨opened, -, h⟩ := Option.bind_eq_some_iff.1 h
      split at h
      · cases h
        cases hnext
      · obtain ⟨content, -, rfl⟩ := Option.map_eq_some_iff.1 h
        have hnext := Outcome.eq_of_next? hnext
        omega

/-- The turns of the loop from a byte of the part on. -/
def turns? (reading : Reading) (path : String) (offset : Nat) (part : List Char) (cursor : Nat) :
    Option (List Turn) :=
  if cursor < byteCount part then
    match _hturn : turn? reading path offset part cursor with
    | none => none
    | some turn =>
      match _hnext : turn.next? with
      | none => some [turn]
      | some next => (turns? reading path offset part next).map (turn :: ·)
  else some []
termination_by byteCount part - cursor
decreasing_by
  have := lt_of_turn? _hturn _hnext
  omega

/-- What the turns of a loop come to. -/
def turnsOutcome (turns : List Turn) : Outcome :=
  turns.foldr (fun turn after => turn.outcome.andThen after) (.read [])

/-! ## 3. Parts and whole texts -/

/-- The reading of a part. -/
structure Scan where
  /-- The slice for the key, if the part has groups. -/
  key? : Option Slice
  turns : List Turn
  outcome : Outcome

/-- What stands before the first `[` is a key, unless there is nothing. -/
def keyOutcome (name : List Char) : Outcome :=
  .read (if name = [] then [] else [.key (String.ofList name)])

/-- Reads a part. -/
def scan? (reading : Reading) (path : String) (offset : Nat) (part : List Char) : Option Scan :=
  match find? '[' part with
  | none => some ⟨none, [], keyOutcome part⟩
  | some opening =>
    (slice? part 0 opening).bind fun key =>
      (turns? reading path offset part opening).map fun turns =>
        ⟨some key, turns, (keyOutcome key.chars).andThen (turnsOutcome turns)⟩

/-- The parts of a text with the number of bytes before each. -/
def locateParts (offset : Nat) : List (List Char) → List (Nat × List Char)
  | [] => []
  | part :: parts => (offset, part) :: locateParts (offset + (byteCount part + 1)) parts

/-- The parts between the dots of a path text. -/
def parts (path : String) : List (Nat × List Char) := locateParts 0 (path.toList.splitOn '.')

/-- Reads parts, in order. -/
def readParts? (reading : Reading) (path : String) : List (Nat × List Char) → Option Outcome
  | [] => some (.read [])
  | (offset, part) :: parts =>
    if reading = .strict ∧ part = [] then some ⟨.error ⟨offset, .emptyPart⟩, []⟩
    else
      (scan? reading path offset part).bind fun scan =>
        match scan.outcome.result with
        | .error _ => some scan.outcome
        | .ok _ => (readParts? reading path parts).map scan.outcome.andThen

/-- Reads a path text. -/
def readText? (reading : Reading) (path : String) : Option Outcome :=
  if reading = .strict ∧ path = "" then some (.read []) else readParts? reading path (parts path)

end DocPath.Scanner
