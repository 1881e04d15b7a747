import DocPath.Proofs.Pieces

/-!
# Path texts joined by a dot

Two path texts with a dot between them are read as one after the other (`read_join`).  Leniently
the segments of the first are followed by those of the second, whatever the two texts are.  Strictly
the faults are those of the two texts as well: a fault of the first text is that of the whole, at
the same byte; if the first text has none, a fault of the second is that of the whole, as many bytes
later as the first text and the dot take.  Only a text without characters changes its meaning: alone
it is the path without segments, and beside a dot it is a part without text, which is a fault.

The pieces of the whole text are the pieces of the two texts with a dot between them
(`Piece.ofText_join`).  What is left to show is about positions: where pieces lie shifts with what
is before them, and their faults shift with them (`Piece.firstFault?_add`).
-/

namespace DocPath

/-- The fault of a text as it is in a longer text, where `bytes` bytes precede it. -/
def PathFault.behind (bytes : Nat) (fault : PathFault) : PathFault :=
  ⟨bytes + fault.position, fault.flaw⟩

namespace Piece

/-! ## 1. The pieces of joined texts -/

/-- The pieces of a joined text: those of the first text, the dot, and those of the second. -/
theorem ofText_join (as bs : List Char) :
    ofText (as ++ '.' :: bs) = ofText as ++ dot :: ofText bs := by
  induction as using Text.induct_join (c := '.') with
  | single as hdot => rw [ofText_part_join hdot, ofText_of_not_mem hdot]
  | join part rest hdot ih =>
    rw [List.append_assoc, List.cons_append, ofText_part_join hdot, ih, ofText_part_join hdot,
      List.append_assoc, List.cons_append]

/-! ## 2. The first fault of pieces -/

/-- The first fault of pieces, if `before` bytes precede them. -/
def firstFault? (before : Nat) (ps : List Piece) : Option PathFault :=
  (locate before ps).findSome? PathFault.ofPiece?

variable {p : Piece} {ps qs : List Piece} {before : Nat}

theorem firstFault?_eq_none_iff : firstFault? before ps = none ↔ Sound ps :=
  findSome?_locate_eq_none_iff

theorem firstFault?_cons (before : Nat) (p : Piece) (ps : List Piece) :
    firstFault? before (p :: ps) =
      (p.flaw?.map fun flaw => ⟨before + flaw.lead, flaw⟩).or
        (firstFault? (before + Text.byteCount p.chars) ps) := by
  have here : PathFault.ofPiece? (before, p) =
      p.flaw?.map fun flaw => ⟨before + flaw.lead, flaw⟩ := rfl
  rw [firstFault?, locate, List.findSome?_cons, here]
  cases p.flaw? <;> rfl

/-- A sound piece is passed over. -/
theorem firstFault?_cons_of_sound (h : p.flaw? = none) (before : Nat) (ps : List Piece) :
    firstFault? before (p :: ps) = firstFault? (before + Text.byteCount p.chars) ps := by
  rw [firstFault?_cons, h, Option.map_none, Option.none_or]

/-- A piece that breaks the grammar is the first fault of all that begin with it. -/
theorem firstFault?_cons_of_flaw {flaw : Flaw} (h : p.flaw? = some flaw) (before : Nat)
    (ps : List Piece) : firstFault? before (p :: ps) = some ⟨before + flaw.lead, flaw⟩ := by
  rw [firstFault?_cons, h, Option.map_some, Option.some_or]

/-- The later pieces are asked if the earlier ones are sound. -/
theorem firstFault?_append (before : Nat) (ps qs : List Piece) :
    firstFault? before (ps ++ qs) =
      (firstFault? before ps).or (firstFault? (before + Text.byteCount (allChars ps)) qs) := by
  induction ps generalizing before with
  | nil => simp [firstFault?, locate, allChars]
  | cons p ps ih =>
    have hchars : allChars (p :: ps) = p.chars ++ allChars ps := rfl
    rw [List.cons_append, firstFault?_cons, firstFault?_cons, ih, hchars, Text.byteCount_append,
      ← Nat.add_assoc, Option.or_assoc]

/-- Faults shift with the pieces. -/
theorem firstFault?_add (bytes before : Nat) (ps : List Piece) :
    firstFault? (bytes + before) ps = (firstFault? before ps).map (.behind bytes) := by
  induction ps generalizing before with
  | nil => rfl
  | cons p ps ih =>
    rw [firstFault?_cons, firstFault?_cons, Nat.add_assoc, ih, Option.map_or, Option.map_map]
    cases p.flaw? with
    | none => rfl
    | some flaw => simp [PathFault.behind, Nat.add_assoc]

/-- The first fault of a joined text, if `before` bytes precede it. -/
theorem firstFault?_join (before : Nat) (as bs : List Char) :
    firstFault? before (ofText (as ++ '.' :: bs)) =
      (firstFault? before (ofText as)).or
        (firstFault? (before + Text.byteCount (as ++ ['.'])) (ofText bs)) := by
  have hdot : dot.flaw? = none := rfl
  rw [ofText_join, firstFault?_append, firstFault?_cons_of_sound hdot, allChars_ofText,
    Text.byteCount_append, ← Nat.add_assoc]
  rfl

end Piece

namespace Path

/-! ## 3. The two readers -/

variable {a b : String}

theorem toList_join (a b : String) : (a ++ "." ++ b).toList = a.toList ++ '.' :: b.toList := by
  simp

/-- The segments of a joined text are those of the two texts, in order. -/
theorem ofText_join (a b : String) : ofText (a ++ "." ++ b) = ofText a ++ ofText b := by
  rw [ofText_eq, toList_join, Piece.ofText_join, Piece.segments_append, Piece.segments_cons]
  rfl

/-- The strict reader refuses a text for the first fault of it. -/
theorem ofText?_eq_error_iff {fault : PathFault} :
    ofText? a = .error fault ↔ fault? a = some fault := by
  unfold ofText?
  cases fault? a <;> simp

/-- A text with characters has the first fault of its pieces. -/
theorem fault?_of_ne (h : a ≠ "") :
    fault? a = Piece.firstFault? 0 (Piece.ofText a.toList) := if_neg h

/-- The fault of a joined text is that of the first text or else that of the second, shifted. -/
theorem fault?_join (ha : a ≠ "") (b : String) :
    fault? (a ++ "." ++ b) =
      (fault? a).or ((Piece.firstFault? 0 (Piece.ofText b.toList)).map
        (.behind (a.utf8ByteSize + 1))) := by
  have hjoin : a ++ "." ++ b ≠ "" := by
    intro h
    have htext := congrArg String.toList h
    rw [toList_join] at htext
    exact List.append_ne_nil_of_right_ne_nil _ (List.cons_ne_nil _ _) htext
  have hbytes : Text.byteCount (a.toList ++ ['.']) = a.utf8ByteSize + 1 := by
    rw [Text.byteCount_append, Text.byteCount_toList]
    rfl
  rw [fault?_of_ne hjoin, fault?_of_ne ha, toList_join, Piece.firstFault?_join, Nat.zero_add,
    hbytes, ← Piece.firstFault?_add, Nat.add_zero]

/-- Beside a dot a text without characters is a part without text. -/
theorem fault?_join_empty (ha : fault? a = none) (hne : a ≠ "") :
    fault? (a ++ "." ++ "") = some ⟨a.utf8ByteSize + 1, .emptyPart⟩ := by
  rw [fault?_join hne, ha]
  rfl

/-- **Reading goes on behind a dot.**  The lenient reader reads two texts with a dot between them as
the one after the other.  The strict reader, if the first text has characters, refuses the whole for
the fault of the first text, at the same byte; or, if that has none, for a second text without
characters, right behind the dot; or for the fault of the second text, as many bytes later as the
first text and the dot take; and otherwise it reads the one after the other. -/
theorem read_join (a b : String) :
    ofText (a ++ "." ++ b) = ofText a ++ ofText b ∧
      (a ≠ "" → ofText? (a ++ "." ++ b) =
        match ofText? a with
        | .error fault => .error fault
        | .ok p =>
          if b = "" then .error ⟨a.utf8ByteSize + 1, .emptyPart⟩
          else
            match ofText? b with
            | .error fault => .error ⟨a.utf8ByteSize + 1 + fault.position, fault.flaw⟩
            | .ok q => .ok (p ++ q)) := by
  refine ⟨ofText_join a b, ?_⟩
  intro ha
  cases hfault : fault? a with
  | some fault => simp [ofText?, fault?_join ha, hfault]
  | none =>
    by_cases hb : b = ""
    · subst hb
      rw [ofText?, fault?_join_empty hfault ha]
      simp [ofText?, hfault]
    · rw [ofText?, fault?_join ha, ← fault?_of_ne hb, hfault, Option.none_or, ofText_join]
      cases hfault' : fault? b with
      | some fault => simp [ofText?, hfault, hfault', hb, PathFault.behind]
      | none => simp [ofText?, hfault, hfault', hb]

namespace Example

/-- The first text takes five bytes, and the fault of the second one lies behind three. -/
theorem read_join_shifted :
    "é[0]" ≠ "" ∧ ofText? "é[0]" = .ok [.key "é", .index 0] ∧
      ofText? "ü[x]" = .error ⟨3, .notAnIndex "x"⟩ ∧
      ofText? ("é[0]" ++ "." ++ "ü[x]") = .error ⟨9, .notAnIndex "x"⟩ := by
  have hfirst : ofText? "é[0]" = .ok [.key "é", .index 0] :=
    ofText?_eq_ok_iff_fault?.2 ⟨by decide +kernel, by decide +kernel⟩
  have hsecond : ofText? "ü[x]" = .error ⟨3, .notAnIndex "x"⟩ :=
    ofText?_eq_error_iff.2 (by decide +kernel)
  have hjoin := (read_join "é[0]" "ü[x]").2 (by decide)
  rw [hfirst, hsecond] at hjoin
  exact ⟨by decide, hfirst, hsecond, hjoin⟩

end Example

end Path

end DocPath
