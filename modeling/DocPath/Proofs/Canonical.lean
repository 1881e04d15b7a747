import DocPath.Proofs.Grammar

/-!
# The canonical text of a path

Writing a path and reading it back is the identity on the plain paths and on no others.

* The canonical text of a plain path belongs to the grammar: every key begins a part, and the
  groups behind it up to the next key belong to that part (`exists_parts_of_plain`).  So the strict
  reader gives the path back, and with it the lenient one.
* Conversely no reader ever yields a path that is not plain (`plain_ofText`): a key is cut out of a
  text without dots, before its first `[`, and is not empty.

Hence whatever is read leniently from any text has a canonical text that both readers agree on.
-/

namespace DocPath

/-! ## 1. What the readers yield -/

theorem Segment.plain_of_ofGroup? {content : List Char} {s : Segment}
    (h : ofGroup? content = some s) : s.Plain := by
  unfold ofGroup? at h
  split at h
  · cases h
    trivial
  · obtain ⟨place, -, rfl⟩ := Option.map_eq_some_iff.1 h
    trivial

namespace Piece

/-- From its first `[` on a part holds no key. -/
theorem plain_of_mem_groups {cs : List Char} {piece : Piece} {s : Segment}
    (hmem : piece ∈ groups cs) (h : piece.segment? = some s) : s.Plain := by
  fun_induction groups cs with
  | case1 => cases hmem
  | case2 cs _ =>
    rw [List.mem_singleton.1 hmem] at h
    cases h
  | case3 cs content after _ ih =>
    rcases List.mem_cons.1 hmem with rfl | hmem
    · exact Segment.plain_of_ofGroup? h
    · exact ih hmem
  | case4 c cs _ _ =>
    rw [List.mem_singleton.1 hmem] at h
    cases h
  | case5 c cs _ before after _ ih =>
    rcases List.mem_cons.1 hmem with rfl | hmem
    · cases h
    · exact ih hmem

/-- A text without dots and `[` that is not empty is a plain key. -/
theorem plain_of_segment?_key {name : List Char} {s : Segment} (hne : name ≠ [])
    (hdot : '.' ∉ name) (hopen : '[' ∉ name) (h : (key name).segment? = some s) : s.Plain := by
  cases h
  have hname : String.ofList name ≠ "" := by
    rw [Ne, ← String.toList_eq_nil_iff, String.toList_ofList]
    exact hne
  refine ⟨hname, ?_, ?_⟩
  · rwa [String.toList_ofList]
  · rwa [String.toList_ofList]

/-- What the pieces of a part without dots stand for is plain. -/
theorem plain_of_mem_ofPart {part : List Char} (hdot : '.' ∉ part) {piece : Piece} {s : Segment}
    (hmem : piece ∈ ofPart part) (h : piece.segment? = some s) : s.Plain := by
  rcases ofPart_cases part with rfl | ⟨hne, hopen⟩ | ⟨name, rest, rfl, hopen⟩
  · rw [ofPart_nil, List.mem_singleton] at hmem
    rw [hmem] at h
    cases h
  · rw [ofPart_of_not_mem hne hopen, List.mem_singleton] at hmem
    rw [hmem] at h
    exact plain_of_segment?_key hne hdot hopen h
  · rw [ofPart_append hopen] at hmem
    rcases List.mem_append.1 hmem with hmem | hmem
    · split at hmem
      · cases hmem
      · next hne =>
        rw [List.mem_singleton.1 hmem] at h
        exact plain_of_segment?_key hne (fun hc => hdot (List.mem_append_left _ hc)) hopen h
    · exact plain_of_mem_groups hmem h

end Piece

namespace Path

/-- **Only plain paths are read.** -/
theorem plain_ofText (text : String) : (ofText text).Plain := by
  intro s hs
  rw [ofText_eq, Piece.segments_ofText] at hs
  obtain ⟨part, hpart, hs⟩ := List.mem_flatMap.1 hs
  obtain ⟨piece, hpiece, hsegment⟩ := List.mem_filterMap.1 hs
  exact Piece.plain_of_mem_ofPart (Text.not_mem_of_mem_splitOn hpart) hpiece hsegment

end Path

/-! ## 2. What is written -/

/-- An index and a wildcard are written as groups. -/
theorem Segment.isGroup_chars {s : Segment} (h : ∀ name, s ≠ .key name) : IsGroup s.chars s := by
  cases s with
  | key name => exact absurd rfl (h name)
  | index place =>
    have hgroup := IsGroup.index (Text.readInt?_eq_some_iff.1 (Text.readInt?_intDigits place.toInt))
      place.le_toInt place.toInt_lt
    rwa [Int64.ofInt_toInt] at hgroup
  | wildcard => exact .wildcard

/-- A plain segment and the groups behind it make up a part. -/
theorem isPart_of_plain {s : Segment} (hs : s.Plain) {gs : List (List Char)} {p : Path}
    (hgs : List.Forall₂ IsGroup gs p) : IsPart (s.chars ++ gs.flatten) (s :: p) := by
  cases s with
  | key name =>
    obtain ⟨hne, hdot, hopen⟩ := hs
    have hpart := IsPart.keyed (mt String.toList_eq_nil_iff.1 hne) hdot hopen hgs
    rwa [String.ofList_toList] at hpart
  | index place =>
    exact .bare (List.cons_ne_nil _ gs) (.cons (Segment.isGroup_chars nofun) hgs)
  | wildcard =>
    exact .bare (List.cons_ne_nil _ gs) (.cons (Segment.isGroup_chars nofun) hgs)

theorem intercalate_dot_cons (part : List Char) (parts : List (List Char)) :
    ['.'].intercalate (part :: parts) = part ++ parts.flatMap fun part' => '.' :: part' := by
  induction parts generalizing part with
  | nil => simp
  | cons part' parts ih =>
    rw [List.intercalate_cons_cons, ih, List.flatMap_cons]
    simp

namespace Path

/-- What is written behind the first segment of a plain path: groups that still belong to the part
of that segment, and then further parts, each after a dot. -/
theorem exists_parts_of_plain {p : Path} (h : p.Plain) :
    ∃ gs q parts ps, List.Forall₂ IsGroup gs q ∧ List.Forall₂ IsPart parts ps ∧
      p = q ++ ps.flatten ∧
      (p.flatMap fun s => s.joint ++ s.chars) =
        gs.flatten ++ parts.flatMap fun part => '.' :: part := by
  induction p with
  | nil => exact ⟨[], [], [], [], .nil, .nil, rfl, rfl⟩
  | cons s rest ih =>
    obtain ⟨hs, hrest⟩ := List.forall_mem_cons.1 h
    obtain ⟨gs, q, parts, ps, hgs, hparts, rfl, htext⟩ := ih hrest
    rw [List.flatMap_cons, htext]
    -- a key begins a part of its own, a group lengthens the part that is open
    cases hjoint : s.joint with
    | nil =>
      have hkey : ∀ name, s ≠ .key name := by
        rintro name rfl
        cases hjoint
      exact ⟨s.chars :: gs, s :: q, parts, ps, .cons (Segment.isGroup_chars hkey) hgs, hparts,
        rfl, by simp⟩
    | cons c cs =>
      have hdot : s.joint = ['.'] := by
        cases s with
        | key name => rfl
        | index _ => cases hjoint
        | wildcard => cases hjoint
      rw [← hjoint, hdot]
      exact ⟨[], [], (s.chars ++ gs.flatten) :: parts, (s :: q) :: ps, .nil,
        .cons (isPart_of_plain hs hgs) hparts, rfl, by simp⟩

/-- The canonical text of a plain path belongs to the grammar. -/
theorem isPathText_chars {p : Path} (h : p.Plain) : IsPathText p.chars p := by
  cases p with
  | nil => exact .empty
  | cons s rest =>
    obtain ⟨hs, hrest⟩ := List.forall_mem_cons.1 h
    obtain ⟨gs, q, parts, ps, hgs, hparts, rfl, htext⟩ := exists_parts_of_plain hrest
    have hpath := IsPathText.parts (List.cons_ne_nil _ parts)
      (.cons (isPart_of_plain hs hgs) hparts)
    rw [intercalate_dot_cons, List.append_assoc, ← htext] at hpath
    exact hpath

/-- The strict reader gives a plain path back. -/
theorem ofText?_print {p : Path} (h : p.Plain) : ofText? p.print = .ok p := by
  refine ofText?_of_isPathText ?_
  rw [print, String.toList_ofList]
  exact isPathText_chars h

/-! ## 3. Writing and reading -/

/-- **Writing and reading are inverse exactly on the plain paths.**  Each reader gives a path back
from its canonical text if and only if the path is plain.  What the lenient reader makes of any
text is plain, so both readers give it back from its canonical text. -/
theorem read_print_iff_plain (p : Path) :
    (ofText p.print = p ↔ p.Plain) ∧ (ofText? p.print = .ok p ↔ p.Plain) ∧
      ∀ text, (ofText text).Plain ∧ ofText (ofText text).print = ofText text ∧
        ofText? (ofText text).print = .ok (ofText text) := by
  have lenient {p : Path} (h : p.Plain) : ofText p.print = p := ofText_of_ofText? (ofText?_print h)
  refine ⟨⟨?_, lenient⟩, ⟨?_, ofText?_print⟩, ?_⟩
  · intro h
    rw [← h]
    exact plain_ofText _
  · intro h
    rw [← ofText_of_ofText? h]
    exact plain_ofText _
  · intro text
    have hplain := plain_ofText text
    exact ⟨hplain, lenient hplain, ofText?_print hplain⟩

end Path

end DocPath
