import DocPath.Proofs.Turns

/-!
# The cursor stays in bounds

The reader with a cursor reads what is read piece by piece (`readText?_eq`), and on the way it never
asks for a slice that does not exist, however many bytes the characters take (`cursor_in_bounds`).
-/

namespace DocPath.Scanner

open Text (Slice byteCount find? slice?)

variable {reading : Reading} {path : String}

/-! ## 1. Parts -/

section Parts

variable {part : List Char}

theorem keyOutcome_eq (before : Nat) (name : List Char) :
    keyOutcome name =
      .ofPieces reading path before (if name = [] then [] else [.key name]) := by
  rw [keyOutcome]
  split
  · rfl
  · rw [ofPieces_singleton]
    rfl

/-- The slices that are taken from a part. -/
def Scan.slices (scan : Scan) : List Slice := scan.key?.toList ++ scan.turns.flatMap Turn.slices

/-- A part is read without leaving it, and comes to what its pieces come to; only the strict reader
looks for parts without text elsewhere. -/
theorem exists_scan? (reading : Reading) (path : String) (offset : Nat) (part : List Char) :
    ∃ scan, scan? reading path offset part = some scan ∧
      (∀ slice ∈ scan.slices, slice.IsIn part) ∧ (∃ cursor, SafeTurns part cursor scan.turns) ∧
      scan.turns.length ≤ part.count ']' + 1 ∧
      (¬ (reading = .strict ∧ part = []) →
        scan.outcome = .ofPieces reading path offset (Piece.ofPart part)) := by
  have hgroupless (h : '[' ∉ part) : scan? reading path offset part =
      some ⟨none, [], keyOutcome part⟩ := by rw [scan?, Text.find?_of_not_mem h]
  rcases Piece.ofPart_cases part with rfl | ⟨hne, hopen⟩ | ⟨name, rest, rfl, hopen⟩
  · refine ⟨_, hgroupless (by simp), by simp [Scan.slices], ⟨0, safeTurns_nil _ _⟩,
      Nat.zero_le _, ?_⟩
    intro hlenient
    cases reading with
    | strict => exact absurd ⟨rfl, rfl⟩ hlenient
    | lenient => rfl
  · refine ⟨_, hgroupless hopen, by simp [Scan.slices], ⟨0, safeTurns_nil _ _⟩, Nat.zero_le _, ?_⟩
    intro _
    rw [Piece.ofPart_of_not_mem hne hopen, keyOutcome_eq offset, if_neg hne]
  · obtain ⟨turns, hturns, hsafe, hlength, houtcome⟩ :=
      runsThrough reading path offset name ('[' :: rest)
    have hkey : slice? (name ++ '[' :: rest) 0 (byteCount name) =
        some ⟨0, byteCount name, name⟩ :=
      Text.slice?_of_eq (List.nil_append _).symm Text.byteCount_nil (Nat.zero_add _)
    have hscan : scan? reading path offset (name ++ '[' :: rest) =
        some ⟨some ⟨0, byteCount name, name⟩, turns,
          (keyOutcome name).andThen (turnsOutcome turns)⟩ := by
      rw [scan?, Text.find?_append hopen]
      dsimp only
      rw [hkey, Option.bind_some, hturns]
      rfl
    have hcount : ('[' :: rest).count ']' ≤ (name ++ '[' :: rest).count ']' := by
      rw [List.count_append]
      exact Nat.le_add_left _ _
    refine ⟨_, hscan, ?_, ⟨_, hsafe⟩, ?_, ?_⟩
    · intro slice hslice
      rcases List.mem_cons.1 hslice with rfl | hslice
      · exact (Text.slice?_eq_some_iff.1 hkey).1
      · obtain ⟨turn, hturn, hslice⟩ := List.mem_flatMap.1 hslice
        exact hsafe.slices turn hturn slice hslice
    · exact Nat.le_trans hlength (Nat.add_le_add_right hcount 1)
    · intro _
      have hchars : Piece.allChars (if name = [] then [] else [.key name]) = name := by
        split
        · next h => rw [h]; rfl
        · simp [Piece.allChars, Piece.chars]
      rw [Piece.ofPart_append hopen, Outcome.ofPieces_append, hchars, ← houtcome,
        keyOutcome_eq offset]

/-- One part and what comes behind it. -/
theorem readParts?_cons {located : List (Nat × List Char)} {after : Outcome}
    (h : readParts? reading path located = some after) (offset : Nat) (part : List Char) :
    readParts? reading path ((offset, part) :: located) =
      some ((Outcome.ofPieces reading path offset (Piece.ofPart part)).andThen after) := by
  rw [readParts?]
  by_cases hempty : reading = .strict ∧ part = []
  · obtain ⟨rfl, rfl⟩ := hempty
    rfl
  · obtain ⟨scan, hscan, -, -, -, houtcome⟩ := exists_scan? reading path offset part
    rw [if_neg hempty, hscan, Option.bind_some, ← houtcome hempty]
    cases hresult : scan.outcome.result with
    | error fault => rw [Outcome.andThen_of_error hresult]
    | ok p => rw [h, Option.map_some]

theorem readParts?_locateParts (offset : Nat) (text : List Char) :
    readParts? reading path (locateParts offset (text.splitOn '.')) =
      some (.ofPieces reading path offset (Piece.ofText text)) := by
  induction text using Text.induct_join (c := '.') generalizing offset with
  | single part hdot =>
    rw [List.splitOn_eq_singleton hdot, locateParts, locateParts, readParts?_cons rfl,
      Piece.ofText_of_not_mem hdot, Outcome.andThen_read_nil]
  | join part rest hdot ih =>
    have hbehind : Outcome.ofPieces reading path (offset + byteCount part)
        (.dot :: Piece.ofText rest) =
          .ofPieces reading path (offset + byteCount part + 1) (Piece.ofText rest) :=
      Outcome.read_nil_andThen _
    rw [Text.splitOn_join hdot, locateParts, readParts?_cons (ih _), Piece.ofText_part_join hdot,
      Outcome.ofPieces_append, Piece.allChars_ofPart, hbehind, Nat.add_assoc]

/-- The bytes of a part are where the splitter says that they are. -/
theorem exists_slice?_of_mem_locateParts {text : List Char} (pre : List Char) {offset : Nat}
    (h : (offset, part) ∈ locateParts (byteCount pre) (text.splitOn '.')) :
    ∃ slice, slice? (pre ++ text) offset (offset + byteCount part) = some slice ∧
      slice.chars = part := by
  induction text using Text.induct_join (c := '.') generalizing pre with
  | single part' hdot =>
    rw [List.splitOn_eq_singleton hdot, locateParts, locateParts, List.mem_singleton] at h
    cases h
    exact ⟨_, Text.slice?_of_eq (List.append_nil _).symm rfl rfl, rfl⟩
  | join part' rest hdot ih =>
    rw [Text.splitOn_join hdot, locateParts, List.mem_cons] at h
    rcases h with h | h
    · cases h
      exact ⟨_, Text.slice?_of_eq (List.append_assoc _ _ _).symm rfl rfl, rfl⟩
    · have hpre : byteCount (pre ++ (part' ++ ['.'])) =
          byteCount pre + (byteCount part' + 1) := by
        rw [Text.byteCount_append, Text.byteCount_append]
        rfl
      rw [← hpre] at h
      have hslice := ih _ h
      simpa using hslice

end Parts

/-! ## 2. Whole texts -/

/-- **The cursor reads what is read piece by piece**, without asking for a slice that does not
exist. -/
theorem readText?_eq (reading : Reading) (path : String) :
    readText? reading path = some ⟨Path.read reading path, Path.readEvents reading path⟩ := by
  rw [readText?]
  split
  · next hempty =>
    obtain ⟨rfl, rfl⟩ := hempty
    rfl
  · next hsome => rw [parts, readParts?_locateParts, Outcome.ofPieces_ofText hsome]

/-- **The cursor stays in bounds and the loop ends.**  Every part stands in the path text at the
bytes that the splitter says.  Wherever a part stands and whatever it is, in both ways of reading:
every slice that is taken from it begins and ends at bytes of the part, in this order, with no
character across them; the cursor is at a byte of the part and goes on to a later one, or to the end
of the part, where the next turn takes it up; and there is at most one turn more than there are `]`.
So the whole text is read, and nothing goes wrong. -/
theorem cursor_in_bounds (reading : Reading) (path : String) :
    (∀ offset part, (offset, part) ∈ parts path →
      ∃ slice, slice? path.toList offset (offset + byteCount part) = some slice ∧
        slice.chars = part) ∧
    (∀ (offset : Nat) (part : String), ∃ scan,
      scan? reading path offset part.toList = some scan ∧
        (∀ slice ∈ scan.slices, slice.start ≤ slice.stop ∧ slice.stop ≤ part.utf8ByteSize ∧
          String.Pos.Raw.IsValid part ⟨slice.start⟩ ∧ String.Pos.Raw.IsValid part ⟨slice.stop⟩) ∧
        (∀ turn ∈ scan.turns, turn.cursor < part.utf8ByteSize ∧
          ∀ next ∈ turn.next?, turn.cursor < next ∧ next ≤ part.utf8ByteSize) ∧
        scan.turns.IsChain (fun turn turn' => turn.next? = some turn'.cursor) ∧
        scan.turns.length ≤ part.toList.count ']' + 1) ∧
    readText? reading path = some ⟨Path.read reading path, Path.readEvents reading path⟩ := by
  refine ⟨?_, ?_, readText?_eq reading path⟩
  · intro offset part hpart
    exact exists_slice?_of_mem_locateParts [] hpart
  · intro offset part
    obtain ⟨scan, hscan, hslices, ⟨cursor, hsafe⟩, hlength, -⟩ :=
      exists_scan? reading path offset part.toList
    have hadvances := hsafe.advances
    rw [Text.byteCount_toList] at hadvances
    refine ⟨scan, hscan, ?_, hadvances, hsafe.follows, hlength⟩
    intro slice hslice
    have hsome := Text.slice?_eq_some_iff.2 ⟨hslices slice hslice, rfl, rfl⟩
    exact Text.isSome_slice?_iff.1 (Option.isSome_iff_exists.2 ⟨slice, hsome⟩)

example : (turns? .strict "" 0 "é[0][1]x".toList 2).map (·.map Turn.cursor) = some [2, 5, 8] := by
  decide +kernel

end DocPath.Scanner
