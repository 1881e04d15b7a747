import DocPath.Path.Scanner
import DocPath.Proofs.Joining
import Mathlib.Data.List.Chain

/-!
# The turns of the cursor

The loop over the groups of a part, turn by turn, against the pieces of the part.  A turn with the
cursor between two characters takes slices of the part only, and does what is to be done with one or
two pieces there (`Turn.Covers`); so the cursor is between two characters again, and the loop runs
through the rest of the part (`runsThrough`).

What pieces come to is added up piece by piece (`Outcome.ofPieces`), for the lenient reader and the
strict one alike.
-/

namespace DocPath.Scanner

open Text (Slice byteCount find? slice?)

variable {reading : Reading} {path : String} {offset before : Nat}

/-! ## 1. What pieces come to -/

namespace Outcome

theorem read_nil_andThen (outcome : Outcome) : (read []).andThen outcome = outcome := by
  obtain ⟨result, events⟩ := outcome
  cases result <;> rfl

theorem andThen_read_nil (outcome : Outcome) : outcome.andThen (read []) = outcome := by
  obtain ⟨result, events⟩ := outcome
  cases result with
  | error fault => rfl
  | ok p => simp [andThen, read, Except.map]

theorem andThen_assoc (a b c : Outcome) : (a.andThen b).andThen c = a.andThen (b.andThen c) := by
  obtain ⟨ra, ea⟩ := a
  obtain ⟨rb, eb⟩ := b
  obtain ⟨rc, ec⟩ := c
  cases ra with
  | error fault => rfl
  | ok p =>
    cases rb with
    | error fault => rfl
    | ok q => cases rc <;> simp [andThen, Except.map]

/-- What a piece comes to, with so many bytes before it. -/
def ofPiece (reading : Reading) (path : String) (before : Nat) (p : Piece) : Outcome :=
  match p.flaw? with
  | none => read p.segment?.toList
  | some flaw => broken reading ⟨before + flaw.lead, flaw⟩ (p.dropped? path).toList

/-- What pieces come to, one after the other. -/
def ofPieces (reading : Reading) (path : String) (before : Nat) : List Piece → Outcome
  | [] => read []
  | p :: ps =>
    (ofPiece reading path before p).andThen
      (ofPieces reading path (before + byteCount p.chars) ps)

theorem ofPieces_append (before : Nat) (ps qs : List Piece) :
    ofPieces reading path before (ps ++ qs) =
      (ofPieces reading path before ps).andThen
        (ofPieces reading path (before + byteCount (Piece.allChars ps)) qs) := by
  induction ps generalizing before with
  | nil => exact (read_nil_andThen _).symm
  | cons p ps ih =>
    have hchars : Piece.allChars (p :: ps) = p.chars ++ Piece.allChars ps := rfl
    rw [List.cons_append, ofPieces, ih, ofPieces, andThen_assoc, hchars, Text.byteCount_append,
      Nat.add_assoc]

/-- The lenient reader keeps the segment of a piece, if it has one, and the report on it. -/
theorem ofPiece_lenient (before : Nat) (p : Piece) :
    ofPiece .lenient path before p = ⟨.ok p.segment?.toList, (p.dropped? path).toList⟩ := by
  cases p with
  | group content =>
    cases h : Segment.ofGroup? content <;>
      simp [ofPiece, read, broken, Piece.flaw?, Piece.segment?, Piece.dropped?, h]
  | _ => rfl

/-- The lenient reader keeps all segments and all reports. -/
theorem ofPieces_lenient (before : Nat) (ps : List Piece) :
    ofPieces .lenient path before ps =
      ⟨.ok (Piece.segments ps), ps.filterMap (Piece.dropped? path)⟩ := by
  induction ps generalizing before with
  | nil => rfl
  | cons p ps ih =>
    have hreports : (p :: ps).filterMap (Piece.dropped? path) =
        (p.dropped? path).toList ++ ps.filterMap (Piece.dropped? path) := by
      cases h : p.dropped? path <;> simp [h]
    rw [ofPieces, ih, ofPiece_lenient, Piece.segments_cons, hreports]
    rfl

/-- The strict reader stops at the first fault. -/
theorem ofPieces_strict (before : Nat) (ps : List Piece) :
    ofPieces .strict path before ps =
      ⟨match Piece.firstFault? before ps with
        | some fault => .error fault
        | none => .ok (Piece.segments ps), []⟩ := by
  induction ps generalizing before with
  | nil => rfl
  | cons p ps ih =>
    rw [ofPieces, ih, ofPiece]
    cases hflaw : p.flaw? with
    | none =>
      rw [Piece.firstFault?_cons_of_sound hflaw, Piece.segments_cons]
      cases Piece.firstFault? (before + byteCount p.chars) ps <;> rfl
    | some flaw =>
      rw [Piece.firstFault?_cons_of_flaw hflaw]
      rfl

/-- The pieces of a text come to what reading it comes to. -/
theorem ofPieces_ofText (h : ¬ (reading = .strict ∧ path = "")) :
    ofPieces reading path 0 (Piece.ofText path.toList) =
      ⟨Path.read reading path, Path.readEvents reading path⟩ := by
  cases reading with
  | lenient => exact ofPieces_lenient 0 _
  | strict =>
    have hne : path ≠ "" := fun e => h ⟨rfl, e⟩
    rw [ofPieces_strict, Path.read, Path.ofText?, Path.fault?_of_ne hne]
    cases Piece.firstFault? 0 (Piece.ofText path.toList) <;> rfl

end Outcome

/-! ## 2. One turn -/

/-- Text before a `[` is a piece of its own, unless there is nothing. -/
def gapPieces (gap : List Char) : List Piece := if gap = [] then [] else [.stray gap]

theorem groups_gap {gap : List Char} (h : '[' ∉ gap) (tail : List Char) :
    Piece.groups (gap ++ '[' :: tail) = gapPieces gap ++ Piece.groups ('[' :: tail) := by
  cases gap with
  | nil => rfl
  | cons c gap =>
    have hc : c ≠ '[' := fun e => h (e ▸ List.mem_cons_self)
    have hgap : '[' ∉ gap := fun hmem => h (List.mem_cons_of_mem c hmem)
    exact Piece.groups_stray hc hgap tail

theorem groups_of_not_mem {rest : List Char} (hne : rest ≠ []) (h : '[' ∉ rest) :
    Piece.groups rest = [.trailing rest] := by
  cases rest with
  | nil => exact absurd rfl hne
  | cons c cs =>
    have hc : c ≠ '[' := fun e => h (e ▸ List.mem_cons_self)
    exact Piece.groups_trailing hc fun hmem => h (List.mem_cons_of_mem c hmem)

theorem allChars_gapPieces (gap : List Char) : Piece.allChars (gapPieces gap) = gap := by
  cases gap with
  | nil => rfl
  | cons c gap => simp [gapPieces, Piece.allChars, Piece.chars]

/-- From the cursor on, a part ends, or has text without `[`, or it has a `[` that is closed or not,
with or without text before it. -/
@[elab_as_elim]
theorem induct_groups {motive : List Char → Prop} (finished : motive [])
    (trailing : ∀ rest, rest ≠ [] → '[' ∉ rest → motive rest)
    (unclosed : ∀ gap body, '[' ∉ gap → ']' ∉ body → motive (gap ++ '[' :: body))
    (group : ∀ gap content after, '[' ∉ gap → ']' ∉ content → motive after →
      motive (gap ++ '[' :: (content ++ ']' :: after))) (rest : List Char) : motive rest := by
  cases hopen : Text.cut? '[' rest with
  | none =>
    cases rest with
    | nil => exact finished
    | cons c cs => exact trailing _ (List.cons_ne_nil c cs) (Text.cut?_eq_none_iff.1 hopen)
  | some halves =>
    obtain ⟨gap, body⟩ := halves
    obtain ⟨hrest, hgap⟩ := Text.cut?_eq_some_iff.1 hopen
    cases hclose : Text.cut? ']' body with
    | none =>
      rw [hrest]
      exact unclosed gap body hgap (Text.cut?_eq_none_iff.1 hclose)
    | some halves =>
      obtain ⟨content, after⟩ := halves
      obtain ⟨hbody, hcontent⟩ := Text.cut?_eq_some_iff.1 hclose
      have hlength : after.length < rest.length :=
        Nat.lt_trans (Text.length_lt_of_cut? hclose) (Text.length_lt_of_cut? hopen)
      rw [hrest, hbody]
      exact group gap content after hgap hcontent
        (induct_groups finished trailing unclosed group after)
termination_by rest.length

/-- The strict reader refuses text before a `[`, and the lenient one goes on behind it. -/
theorem ofPieces_gap (before : Nat) (gap : List Char) (ps : List Piece) :
    Outcome.ofPieces reading path before (gapPieces gap ++ ps) =
      if byteCount gap > 0 ∧ reading = .strict then ⟨.error ⟨before, .textBetweenGroups⟩, []⟩
      else Outcome.ofPieces reading path (before + byteCount gap) ps := by
  cases gap with
  | nil => rfl
  | cons c gap =>
    have hpos : byteCount (c :: gap) > 0 :=
      Nat.pos_of_ne_zero fun h => List.cons_ne_nil c gap (Text.byteCount_eq_zero_iff.1 h)
    cases reading with
    | strict =>
      rw [if_pos ⟨hpos, rfl⟩]
      rfl
    | lenient =>
      rw [if_neg (fun h => nomatch h.2)]
      exact Outcome.read_nil_andThen _

theorem ofPiece_group (before : Nat) (content : List Char) :
    Outcome.ofPiece reading path before (.group content) =
      groupOutcome reading path (before + 1) content := by
  rw [Outcome.ofPiece, groupOutcome, Piece.flaw?, Piece.segment?, Piece.dropped?]
  cases Segment.ofGroup? content <;> rfl

theorem ofPieces_singleton (before : Nat) (p : Piece) :
    Outcome.ofPieces reading path before [p] = Outcome.ofPiece reading path before p :=
  Outcome.andThen_read_nil _

section Turn

variable {part pre gap rest tail body content after : List Char} {ps : List Piece}
  {next? : Option Nat}

/-- A turn with the cursor behind `pre` takes slices of the part, and does what is to be done with
these pieces.  Unless it is refused, the cursor is at `next?` next. -/
structure Turn.Covers (turn : Turn) (reading : Reading) (path : String) (offset : Nat)
    (part pre : List Char) (ps : List Piece) (next? : Option Nat) : Prop where
  cursor : turn.cursor = byteCount pre
  slices : ∀ slice ∈ turn.slices, slice.IsIn part
  outcome : turn.outcome = .ofPieces reading path (offset + byteCount pre) ps
  next : turn.next? = next?.bind turn.outcome.next?

theorem slice?_rest (pre rest : List Char) :
    slice? (pre ++ rest) (byteCount pre) (byteCount (pre ++ rest)) =
      some ⟨byteCount pre, byteCount (pre ++ rest), rest⟩ :=
  Text.slice?_of_eq (List.append_nil _).symm rfl (Text.byteCount_append pre rest).symm

variable (reading path offset)

theorem exists_turn?_trailing (pre : List Char) (h : '[' ∉ rest) :
    ∃ turn, turn? reading path offset (pre ++ rest) (byteCount pre) = some turn ∧
      turn.Covers reading path offset (pre ++ rest) pre [.trailing rest] none := by
  have hrest := slice?_rest pre rest
  rw [turn?, hrest, Option.bind_some, Text.find?_of_not_mem h]
  refine ⟨_, rfl, rfl, ?_, ?_, rfl⟩
  · intro slice hslice
    cases List.mem_singleton.1 hslice
    exact (Text.slice?_eq_some_iff.1 hrest).1
  · rw [ofPieces_singleton]
    rfl

/-- What is done at a `[` is done behind text before it as well, unless that is refused. -/
theorem exists_turn?_gap (pre : List Char) (hgap : '[' ∉ gap)
    (h : ∀ slice : Slice, slice.IsIn (pre ++ (gap ++ '[' :: tail)) →
      ∃ turn, groupTurn? reading path offset (pre ++ (gap ++ '[' :: tail)) (byteCount pre) slice
          (byteCount (pre ++ gap)) = some turn ∧
        turn.cursor = byteCount pre ∧
        (∀ slice ∈ turn.slices, slice.IsIn (pre ++ (gap ++ '[' :: tail))) ∧
        turn.outcome = .ofPieces reading path (offset + byteCount (pre ++ gap)) ps ∧
        turn.next? = next?.bind turn.outcome.next?) :
    ∃ turn, turn? reading path offset (pre ++ (gap ++ '[' :: tail)) (byteCount pre) = some turn ∧
      turn.Covers reading path offset (pre ++ (gap ++ '[' :: tail)) pre (gapPieces gap ++ ps)
        next? := by
  have hrest := slice?_rest pre (gap ++ '[' :: tail)
  have hin := (Text.slice?_eq_some_iff.1 hrest).1
  rw [turn?, hrest, Option.bind_some, Text.find?_append hgap]
  by_cases hrefused : byteCount gap > 0 ∧ reading = .strict
  · refine ⟨_, if_pos hrefused, rfl, ?_, ?_, ?_⟩
    · intro slice hslice
      cases List.mem_singleton.1 hslice
      exact hin
    · rw [ofPieces_gap, if_pos hrefused]
    · cases next? <;> rfl
  · obtain ⟨turn, hturn, hcursor, hslices, houtcome, hnext⟩ := h _ hin
    have hbytes := Text.byteCount_append pre gap
    rw [hbytes] at hturn houtcome
    refine ⟨turn, (if_neg hrefused).trans hturn, hcursor, hslices, ?_, hnext⟩
    rw [houtcome, ofPieces_gap, if_neg hrefused, Nat.add_assoc]

theorem exists_turn?_unclosed (pre : List Char) (hgap : '[' ∉ gap) (hbody : ']' ∉ body) :
    ∃ turn, turn? reading path offset (pre ++ (gap ++ '[' :: body)) (byteCount pre) = some turn ∧
      turn.Covers reading path offset (pre ++ (gap ++ '[' :: body)) pre
        (gapPieces gap ++ [.unclosed body]) none := by
  refine exists_turn?_gap reading path offset pre hgap ?_
  intro rest hrest
  have hopened := slice?_rest (pre ++ gap) ('[' :: body)
  have hclose : ']' ∉ '[' :: body := by simp [hbody]
  rw [List.append_assoc] at hopened
  rw [groupTurn?, hopened, Option.bind_some, Text.find?_of_not_mem hclose]
  refine ⟨_, rfl, rfl, ?_, ?_, rfl⟩
  · intro slice hslice
    simp only [List.mem_cons, List.not_mem_nil, or_false] at hslice
    rcases hslice with rfl | rfl
    · exact hrest
    · exact (Text.slice?_eq_some_iff.1 hopened).1
  · rw [ofPieces_singleton]
    rfl

theorem exists_turn?_group (pre : List Char) (hgap : '[' ∉ gap) (hcontent : ']' ∉ content)
    (after : List Char) :
    ∃ turn, turn? reading path offset (pre ++ (gap ++ '[' :: (content ++ ']' :: after)))
        (byteCount pre) = some turn ∧
      turn.Covers reading path offset (pre ++ (gap ++ '[' :: (content ++ ']' :: after))) pre
        (gapPieces gap ++ [.group content])
        (some (byteCount (pre ++ (gap ++ '[' :: (content ++ [']']))))) := by
  refine exists_turn?_gap reading path offset pre hgap ?_
  intro rest hrest
  have hopened := slice?_rest (pre ++ gap) ('[' :: (content ++ ']' :: after))
  have hnot : ']' ∉ '[' :: content := by simp [hcontent]
  have hclose : find? ']' ('[' :: content ++ ']' :: after) = some (byteCount ('[' :: content)) :=
    Text.find?_append hnot after
  have hpart : pre ++ (gap ++ '[' :: (content ++ ']' :: after)) =
      pre ++ gap ++ ['['] ++ content ++ ']' :: after := by simp
  have hstart : byteCount (pre ++ gap ++ ['[']) = byteCount (pre ++ gap) + 1 :=
    Text.byteCount_append _ _
  have hstop : byteCount (pre ++ gap) + 1 + byteCount content =
      byteCount (pre ++ gap) + byteCount ('[' :: content) := Nat.add_assoc _ _ _
  have hinside := Text.slice?_of_eq hpart hstart hstop
  rw [List.append_assoc] at hopened
  rw [groupTurn?, hopened, Option.bind_some]
  dsimp only
  rw [← List.cons_append, hclose]
  dsimp only
  rw [List.cons_append, hinside]
  refine ⟨_, rfl, rfl, ?_, ?_, ?_⟩
  · intro slice hslice
    simp only [List.mem_cons, List.not_mem_nil, or_false] at hslice
    rcases hslice with rfl | rfl | rfl
    · exact hrest
    · exact (Text.slice?_eq_some_iff.1 hopened).1
    · exact (Text.slice?_eq_some_iff.1 hinside).1
  · rw [ofPieces_singleton, ofPiece_group]
  · have hend : byteCount (pre ++ (gap ++ '[' :: (content ++ [']']))) =
        byteCount (pre ++ gap) + byteCount ('[' :: content) + 1 := by
      rw [← Text.byteCount_append]
      exact (congrArg byteCount (by simp)).trans (Text.byteCount_append _ [']'])
    rw [hend]
    rfl

end Turn

/-! ## 3. Whole runs -/

/-- What is safe about the turns of a loop over a part: each takes up the cursor where the one
before left it, the cursor is at a byte of the part and moves on, not beyond the end of the part,
and the slices are taken from the part. -/
structure SafeTurns (part : List Char) (cursor : Nat) (turns : List Turn) : Prop where
  starts : ∀ turn ∈ turns.head?, turn.cursor = cursor
  follows : turns.IsChain fun turn turn' => turn.next? = some turn'.cursor
  advances : ∀ turn ∈ turns, turn.cursor < byteCount part ∧
    ∀ next ∈ turn.next?, turn.cursor < next ∧ next ≤ byteCount part
  slices : ∀ turn ∈ turns, ∀ slice ∈ turn.slices, slice.IsIn part

section Run

variable {part pre rest : List Char} {ps : List Piece} {turn : Turn} {turns : List Turn}
  {next? : Option Nat} {next : Nat}

theorem turns?_of_le (h : byteCount part ≤ before) :
    turns? reading path offset part before = some [] := by
  rw [turns?, if_neg (Nat.not_lt.2 h)]

/-- The loop ends with a turn behind which there is none. -/
theorem turns?_of_none (hlt : before < byteCount part)
    (hturn : turn? reading path offset part before = some turn) (hnext : turn.next? = none) :
    turns? reading path offset part before = some [turn] := by
  rw [turns?, if_pos hlt]
  split
  · next h => cases h.symm.trans hturn
  · next turn' h =>
    cases h.symm.trans hturn
    split
    · rfl
    · next h => cases h.symm.trans hnext

/-- The loop goes on where a turn has left the cursor. -/
theorem turns?_of_some (hlt : before < byteCount part)
    (hturn : turn? reading path offset part before = some turn) (hnext : turn.next? = some next) :
    turns? reading path offset part before =
      (turns? reading path offset part next).map (turn :: ·) := by
  rw [turns?, if_pos hlt]
  split
  · next h => cases h.symm.trans hturn
  · next turn' h =>
    cases h.symm.trans hturn
    split
    · next h => cases h.symm.trans hnext
    · next h =>
      cases h.symm.trans hnext
      rfl

theorem safeTurns_nil (part : List Char) (cursor : Nat) : SafeTurns part cursor [] where
  starts := by simp
  follows := .nil
  advances := by simp
  slices := by simp

/-- A turn that leaves nothing to the next one is a run. -/
theorem safeTurns_singleton (hcovers : turn.Covers reading path offset part pre ps next?)
    (hlt : byteCount pre < byteCount part) (hnext : turn.next? = none) :
    SafeTurns part (byteCount pre) [turn] := by
  refine ⟨?_, .singleton turn, ?_, ?_⟩
  · rintro _ ⟨⟩
    exact hcovers.cursor
  · intro turn' hturn
    cases List.mem_singleton.1 hturn
    rw [hcovers.cursor, hnext]
    exact ⟨hlt, fun _ h => nomatch h⟩
  · intro turn' hturn
    cases List.mem_singleton.1 hturn
    exact hcovers.slices

/-- A turn before a run that takes up the cursor where it was left. -/
theorem SafeTurns.cons (h : SafeTurns part next turns)
    (hcovers : turn.Covers reading path offset part pre ps next?)
    (hlt : byteCount pre < next) (hle : next ≤ byteCount part) (hnext : turn.next? = some next) :
    SafeTurns part (byteCount pre) (turn :: turns) := by
  refine ⟨?_, ?_, ?_, ?_⟩
  · rintro _ ⟨⟩
    exact hcovers.cursor
  · rw [List.isChain_cons]
    refine ⟨?_, h.follows⟩
    intro turn' hturn
    rw [hnext, h.starts turn' hturn]
  · refine List.forall_mem_cons.2 ⟨?_, h.advances⟩
    rw [hcovers.cursor, hnext]
    refine ⟨Nat.lt_of_lt_of_le hlt hle, ?_⟩
    rintro _ ⟨⟩
    exact ⟨hlt, hle⟩
  · exact List.forall_mem_cons.2 ⟨hcovers.slices, h.slices⟩

/-- The loop with its cursor behind `pre` runs through the rest of the part: it ends after at most
one turn more than there are `]`, and comes to what the pieces of the rest come to. -/
def RunsThrough (reading : Reading) (path : String) (offset : Nat) (pre rest : List Char) : Prop :=
  ∃ turns, turns? reading path offset (pre ++ rest) (byteCount pre) = some turns ∧
    SafeTurns (pre ++ rest) (byteCount pre) turns ∧ turns.length ≤ rest.count ']' + 1 ∧
    turnsOutcome turns = .ofPieces reading path (offset + byteCount pre) (Piece.groups rest)

theorem byteCount_lt_append (pre : List Char) (hne : rest ≠ []) :
    byteCount pre < byteCount (pre ++ rest) := by
  have hpos := mt Text.byteCount_eq_zero_iff.1 hne
  rw [Text.byteCount_append]
  omega

/-- One turn is enough if it does all and none follows. -/
theorem runsThrough_of_last (hne : rest ≠ [])
    (hturn : turn? reading path offset (pre ++ rest) (byteCount pre) = some turn)
    (hcovers : turn.Covers reading path offset (pre ++ rest) pre ps next?)
    (hnext : turn.next? = none)
    (houtcome :
      turn.outcome = .ofPieces reading path (offset + byteCount pre) (Piece.groups rest)) :
    RunsThrough reading path offset pre rest := by
  have hlt := byteCount_lt_append pre hne
  refine ⟨[turn], turns?_of_none hlt hturn hnext, safeTurns_singleton hcovers hlt hnext, ?_, ?_⟩
  · exact Nat.le_add_left 1 _
  · rw [← houtcome]
    exact Outcome.andThen_read_nil _

/-- One turn and a run through what it leaves are a run. -/
theorem RunsThrough.cons {covered : List Char}
    (h : RunsThrough reading path offset (pre ++ covered) rest) (hclose : ']' ∈ covered)
    (hturn : turn? reading path offset (pre ++ (covered ++ rest)) (byteCount pre) = some turn)
    (hcovers : turn.Covers reading path offset (pre ++ (covered ++ rest)) pre ps next?)
    (hnext : turn.next? = some (byteCount (pre ++ covered))) (hchars : Piece.allChars ps = covered)
    (hpieces : Piece.groups (covered ++ rest) = ps ++ Piece.groups rest) :
    RunsThrough reading path offset pre (covered ++ rest) := by
  obtain ⟨turns, hturns, hsafe, hlength, houtcome⟩ := h
  have hlt := byteCount_lt_append pre (List.ne_nil_of_mem hclose)
  have hle : byteCount (pre ++ covered) ≤ byteCount (pre ++ covered ++ rest) := by
    rw [Text.byteCount_append (pre ++ covered)]
    exact Nat.le_add_right _ _
  rw [List.append_assoc] at hturns hsafe hle
  refine ⟨turn :: turns, ?_, hsafe.cons hcovers hlt hle hnext, ?_, ?_⟩
  · rw [turns?_of_some (Nat.lt_of_lt_of_le hlt hle) hturn hnext, hturns]
    rfl
  · have hcount := List.count_pos_iff.2 hclose
    rw [List.count_append, List.length_cons]
    omega
  · have hcons : turnsOutcome (turn :: turns) = turn.outcome.andThen (turnsOutcome turns) := rfl
    rw [hcons, houtcome, hcovers.outcome, hpieces, Outcome.ofPieces_append, hchars,
      Text.byteCount_append, Nat.add_assoc]

/-- **The loop runs through every part.** -/
theorem runsThrough (reading : Reading) (path : String) (offset : Nat) (pre rest : List Char) :
    RunsThrough reading path offset pre rest := by
  induction rest using induct_groups generalizing pre with
  | finished =>
    have hnone : turns? reading path offset (pre ++ []) (byteCount pre) = some [] :=
      turns?_of_le (by rw [List.append_nil])
    refine ⟨[], hnone, safeTurns_nil _ _, Nat.zero_le _, ?_⟩
    rw [Piece.groups]
    rfl
  | trailing rest hne hopen =>
    obtain ⟨turn, hturn, hcovers⟩ := exists_turn?_trailing reading path offset pre hopen
    have hpieces : Piece.groups rest = [.trailing rest] := groups_of_not_mem hne hopen
    refine runsThrough_of_last hne hturn hcovers hcovers.next ?_
    rw [hpieces, hcovers.outcome]
  | unclosed gap body hgap hbody =>
    obtain ⟨turn, hturn, hcovers⟩ := exists_turn?_unclosed reading path offset pre hgap hbody
    refine runsThrough_of_last ?_ hturn hcovers hcovers.next ?_
    · exact List.append_ne_nil_of_right_ne_nil gap (List.cons_ne_nil '[' body)
    · rw [groups_gap hgap, Piece.groups_unclosed hbody, hcovers.outcome]
  | group gap content after hgap hcontent ih =>
    obtain ⟨turn, hturn, hcovers⟩ :=
      exists_turn?_group reading path offset pre hgap hcontent after
    have hpieces : Piece.groups (gap ++ '[' :: (content ++ ']' :: after)) =
        gapPieces gap ++ [.group content] ++ Piece.groups after := by
      rw [groups_gap hgap, Piece.groups_append hcontent, List.append_assoc, List.singleton_append]
    cases hresult : turn.outcome.result with
    | error fault =>
      refine runsThrough_of_last ?_ hturn hcovers ?_ ?_
      · exact List.append_ne_nil_of_right_ne_nil gap (List.cons_ne_nil '[' _)
      · rw [hcovers.next, Option.bind_some, Outcome.next?, hresult]
      · rw [hpieces, Outcome.ofPieces_append, ← hcovers.outcome,
          Outcome.andThen_of_error hresult]
    | ok p =>
      have hpart : gap ++ '[' :: (content ++ ']' :: after) =
          gap ++ '[' :: (content ++ [']']) ++ after := by simp
      have hchars : Piece.allChars (gapPieces gap ++ [.group content]) =
          gap ++ '[' :: (content ++ [']']) := by
        have hgroup : Piece.allChars [.group content] = '[' :: (content ++ [']']) := by
          simp [Piece.allChars, Piece.chars]
        rw [← hgroup]
        conv_rhs => rw [← allChars_gapPieces gap]
        exact List.flatMap_append
      have hnext : turn.next? = some (byteCount (pre ++ (gap ++ '[' :: (content ++ [']'])))) := by
        rw [hcovers.next, Option.bind_some, Outcome.next?, hresult]
      rw [hpart] at hturn hcovers hpieces ⊢
      exact (ih _).cons (by simp) hturn hcovers hnext hchars hpieces

end Run

end DocPath.Scanner
