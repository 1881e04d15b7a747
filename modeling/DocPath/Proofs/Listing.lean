import DocPath.Proofs.Commands
import DocPath.Proofs.Grammar

/-!
# What the listing of a path tells

The parse command lists the segments of a path, and the listing is meant to have one line for each.
A key is shown as it is, though, and a line feed in it begins a new line, which may look like that
of another segment: `key b` is the second line of the listing for the two keys `a` and `b`, and also
of the listing for one key that holds a line feed (`same_listing`).

Nothing else stands between a listing and its path.  Two paths that are listed alike are the same,
if no key of theirs holds a line feed with the line of a segment behind it (`parse_stdout_eq_iff`),
and so in particular if none holds a line feed (`clear_of_not_mem`).  The reason is that the lines
of a listing fall into blocks, one for each segment: the first line of a block is the line of a
segment (`exists_lines_eq`), the others are not, and so the blocks can be told apart
(`eq_of_append_eq_append`).
-/

namespace DocPath

/-! ## 1. The lines of a segment -/

namespace Segment

/-- The characters that show the segment in a listing. -/
def shown : Segment → List Char
  | key name => ['k', 'e', 'y', ' '] ++ name.toList
  | index place => ['i', 'n', 'd', 'e', 'x', ' '] ++ Text.intDigits place.toInt
  | wildcard => ['w', 'i', 'l', 'd', 'c', 'a', 'r', 'd']

/-- The lines that the segment takes in a listing. -/
def lines (s : Segment) : List (List Char) := s.shown.splitOn '\n'

/-- No line of the segment but its first could be the line of a segment. -/
def Clear (s : Segment) : Prop := ∀ line ∈ s.lines.tail, ∀ s' : Segment, s'.shown ≠ line

theorem toList_segmentLine (s : Segment) : (Cli.segmentLine s).toList = s.shown ++ ['\n'] := by
  cases s with
  | key name => simp [Cli.segmentLine, shown, String.toList_append]
  | index place => simp [Cli.segmentLine, shown, String.toList_append]
  | wildcard => rfl

/-- What shows a segment shows no other. -/
theorem eq_of_shown_eq {s s' : Segment} (h : s.shown = s'.shown) : s = s' := by
  cases s with
  | key name =>
    cases s' with
    | key name' =>
      have hname : name.toList = name'.toList := List.append_cancel_left h
      rw [String.toList_inj.1 hname]
    | index place => simp [shown] at h
    | wildcard => simp [shown] at h
  | index place =>
    cases s' with
    | key name => simp [shown] at h
    | index place' =>
      have hdigits : Text.intDigits place.toInt = Text.intDigits place'.toInt :=
        List.append_cancel_left h
      have hread := Text.readInt64?_intDigits place
      rw [hdigits, Text.readInt64?_intDigits] at hread
      rw [Option.some.inj hread]
    | wildcard => simp [shown] at h
  | wildcard =>
    cases s' with
    | key name => simp [shown] at h
    | index place => simp [shown] at h
    | wildcard => rfl

theorem lines_of_not_mem {s : Segment} (h : '\n' ∉ s.shown) : s.lines = [s.shown] :=
  List.splitOn_eq_singleton h

/-- A segment without a line feed takes one line, and so it is clear. -/
theorem clear_of_not_mem {s : Segment} (h : '\n' ∉ s.shown) : s.Clear := by
  intro line hline
  rw [lines_of_not_mem h] at hline
  cases hline

theorem not_mem_shown_index (place : Int64) : '\n' ∉ (index place).shown := by
  have hnumeral := Text.readInt?_eq_some_iff.1 (Text.readInt?_intDigits place.toInt)
  have hdigits : '\n' ∉ Text.intDigits place.toInt :=
    Text.not_mem_of_isNumeral hnumeral rfl (by decide) (by decide)
  simp [shown, hdigits]

/-- Only keys can hold a line feed. -/
theorem clear_of_key {s : Segment} (h : ∀ name, s = key name → '\n' ∉ name.toList) : s.Clear := by
  refine clear_of_not_mem ?_
  cases s with
  | key name => simp [shown, h name rfl]
  | index place => exact not_mem_shown_index place
  | wildcard => simp [shown]

/-- The first line of a segment is the line of a segment. -/
theorem exists_lines_eq (s : Segment) : ∃ s' : Segment, s.lines = s'.shown :: s.lines.tail := by
  have honly (s : Segment) (h : '\n' ∉ s.shown) :
      ∃ s' : Segment, s.lines = s'.shown :: s.lines.tail :=
    ⟨s, by rw [lines_of_not_mem h]; rfl⟩
  cases s with
  | key name =>
    cases hcut : Text.cut? '\n' name.toList with
    | none => exact honly _ (by simp [shown, Text.cut?_eq_none_iff.1 hcut])
    | some halves =>
      obtain ⟨first, after⟩ := halves
      obtain ⟨hname, hfirst⟩ := Text.cut?_eq_some_iff.1 hcut
      have hshown : (key name).shown = (key (String.ofList first)).shown ++ '\n' :: after := by
        simp [shown, hname]
      have hnot : '\n' ∉ (key (String.ofList first)).shown := by simp [shown, hfirst]
      refine ⟨key (String.ofList first), ?_⟩
      rw [lines, hshown, Text.splitOn_join hnot, List.tail_cons]
  | index place => exact honly _ (not_mem_shown_index place)
  | wildcard => exact honly _ (by simp [shown])

end Segment

/-! ## 2. The lines of a path -/

/-- Lists that fall into a part of unmarked elements and a part that begins with a marked one fall
into the same parts. -/
theorem eq_of_append_eq_append {α : Type} (marked : α → Prop) {as bs as' bs' : List α}
    (h : as ++ bs = as' ++ bs') (has : ∀ x ∈ as, ¬ marked x) (has' : ∀ x ∈ as', ¬ marked x)
    (hbs : ∀ x ∈ bs.head?, marked x) (hbs' : ∀ x ∈ bs'.head?, marked x) :
    as = as' ∧ bs = bs' := by
  induction as generalizing as' with
  | nil =>
    cases as' with
    | nil => exact ⟨rfl, h⟩
    | cons x as' =>
      rw [List.nil_append] at h
      exact absurd (hbs x (by simp [h])) (has' x List.mem_cons_self)
  | cons x as ih =>
    cases as' with
    | nil =>
      rw [List.nil_append] at h
      exact absurd (hbs' x (by simp [← h])) (has x List.mem_cons_self)
    | cons y as' =>
      obtain ⟨rfl, hrest⟩ := List.cons.inj h
      obtain ⟨rfl, rfl⟩ := ih hrest (fun x hx => has x (List.mem_cons_of_mem _ hx))
        fun x hx => has' x (List.mem_cons_of_mem _ hx)
      exact ⟨rfl, rfl⟩

namespace Path

/-- The lines of the listing. -/
def lines (p : Path) : List (List Char) := p.flatMap Segment.lines

/-- No key of the path holds a line feed with the line of a segment behind it. -/
def Clear (p : Path) : Prop := ∀ s ∈ p, s.Clear

theorem lines_cons (s : Segment) (p : Path) : lines (s :: p) = s.lines ++ lines p := rfl

/-- Behind the last line there is one without text. -/
theorem splitOn_pathLines (p : Path) :
    (Cli.pathLines p).toList.splitOn '\n' = p.lines ++ [[]] := by
  induction p with
  | nil => rfl
  | cons s p ih =>
    have hcons : (Cli.pathLines (s :: p)).toList =
        s.shown ++ '\n' :: (Cli.pathLines p).toList := by
      rw [Cli.pathLines, List.map_cons, String.join_cons, String.toList_append,
        Segment.toList_segmentLine, Cli.pathLines, List.append_assoc, List.singleton_append]
    have hsplit : (s.shown ++ '\n' :: (Cli.pathLines p).toList).splitOn '\n' =
        s.lines ++ (Cli.pathLines p).toList.splitOn '\n' :=
      List.splitOnP_append_cons _ _ (beq_self_eq_true '\n')
    rw [hcons, hsplit, ih, lines_cons, List.append_assoc]

/-- The lines of a path begin with the line of a segment. -/
theorem exists_shown_of_mem_head? (p : Path) :
    ∀ line ∈ p.lines.head?, ∃ s : Segment, s.shown = line := by
  intro line hline
  cases p with
  | nil => cases hline
  | cons s p =>
    obtain ⟨s', hs'⟩ := s.exists_lines_eq
    rw [lines_cons, hs'] at hline
    exact ⟨s', Option.some.inj hline⟩

/-- Where every block begins can be seen, and so the lines tell the path. -/
theorem eq_of_lines_eq {p q : Path} (hp : p.Clear) (hq : q.Clear) (h : p.lines = q.lines) :
    p = q := by
  induction p generalizing q with
  | nil =>
    cases q with
    | nil => rfl
    | cons s' q =>
      obtain ⟨first, hfirst⟩ := s'.exists_lines_eq
      rw [lines_cons, hfirst] at h
      cases h
  | cons s p ih =>
    obtain ⟨first, hfirst⟩ := s.exists_lines_eq
    cases q with
    | nil =>
      rw [lines_cons, hfirst] at h
      cases h
    | cons s' q =>
      obtain ⟨hs, hp⟩ := List.forall_mem_cons.1 hp
      obtain ⟨hs', hq⟩ := List.forall_mem_cons.1 hq
      obtain ⟨first', hfirst'⟩ := s'.exists_lines_eq
      rw [lines_cons, lines_cons, hfirst, hfirst', List.cons_append, List.cons_append] at h
      obtain ⟨hhead, hrest⟩ := List.cons.inj h
      obtain ⟨htail, hbelow⟩ := eq_of_append_eq_append
        (fun line => ∃ s : Segment, s.shown = line) hrest
        (fun line hline => not_exists.2 (hs line hline))
        (fun line hline => not_exists.2 (hs' line hline))
        (exists_shown_of_mem_head? p) (exists_shown_of_mem_head? q)
      have hlines : s.lines = s'.lines := by rw [hfirst, hfirst', hhead, htail]
      have hjoin (s : Segment) : ['\n'].intercalate s.lines = s.shown :=
        List.intercalate_splitOn '\n'
      have hshown : s.shown = s'.shown := by rw [← hjoin s, ← hjoin s', hlines]
      rw [Segment.eq_of_shown_eq hshown, ih hp hq hbelow]

end Path

/-! ## 3. What the parse command shows -/

namespace Cli

variable {stdin stdin' : Content} {files files' : Files} {filter filter' : LogFilter}
  {reading : Reading} {a b : String} {p q : Path}

/-- A path text that is accepted is shown as the listing of its path, and nothing else happens. -/
theorem parse_run (ha : Path.read reading a = .ok p) :
    (Command.parse a reading).run stdin files filter =
      { code := 0, stdout := pathLines p, files,
        logged := (Path.readEvents reading a).filter filter.admits } := by
  have hrespond : (Command.parse a reading).respond
      ((Command.parse a reading).source.content stdin files) =
        (.ok ⟨none, pathLines p⟩, Path.readEvents reading a) := by
    rw [Command.respond, readPath_eq_ok_iff.2 ha]
  rw [Command.run, hrespond]

/-- **A listing tells its path** unless a key has a line feed with the line of a segment behind
it. -/
theorem parse_stdout_eq_iff (ha : Path.read reading a = .ok p) (hb : Path.read reading b = .ok q)
    (hp : p.Clear) (hq : q.Clear) :
    ((Command.parse a reading).run stdin files filter).stdout =
      ((Command.parse b reading).run stdin' files' filter').stdout ↔ p = q := by
  rw [parse_run ha, parse_run hb]
  constructor
  · intro h
    have hsame : pathLines p = pathLines q := h
    have hlines : p.lines ++ [[]] = q.lines ++ [[]] := by
      rw [← Path.splitOn_pathLines, hsame, Path.splitOn_pathLines]
    exact Path.eq_of_lines_eq hp hq (List.append_cancel_right hlines)
  · rintro rfl
    rfl

namespace Example

/-- A key of two lines, the second of which is not the line of a segment. -/
def address : Segment := .key "street\ncity"

theorem clear_address : address.Clear := by
  intro line hline s hshown
  rw [show address.lines.tail = ["city".toList] by decide +kernel, List.mem_singleton] at hline
  rw [hline] at hshown
  cases s with
  | key name => simp [Segment.shown] at hshown
  | index place => simp [Segment.shown] at hshown
  | wildcard => cases hshown

theorem parse_stdout_ne :
    Path.read .strict "home.street\ncity" = .ok [.key "home", address] ∧
      Path.read .strict "home.street.city" = .ok [.key "home", .key "street", .key "city"] ∧
      Path.Clear [.key "home", address] ∧
      ((Command.parse "home.street\ncity" .strict).run (.ok "") [] []).stdout ≠
        ((Command.parse "home.street.city" .strict).run (.ok "") [] []).stdout := by
  have hone : Path.read .strict "home.street\ncity" = .ok [.key "home", address] := by
    decide +kernel
  have hthree : Path.read .strict "home.street.city" =
      .ok [.key "home", .key "street", .key "city"] := by
    decide +kernel
  have hkey (name : String) (h : '\n' ∉ name.toList) : (Segment.key name).Clear :=
    Segment.clear_of_key fun _ hname => Segment.key.inj hname ▸ h
  have hclear : Path.Clear [.key "home", address] := by
    intro s hs
    simp only [List.mem_cons, List.not_mem_nil, or_false] at hs
    rcases hs with rfl | rfl
    · exact hkey "home" (by decide)
    · exact clear_address
  have hclear' : Path.Clear [.key "home", .key "street", .key "city"] := by
    intro s hs
    simp only [List.mem_cons, List.not_mem_nil, or_false] at hs
    rcases hs with rfl | rfl | rfl
    · exact hkey "home" (by decide)
    · exact hkey "street" (by decide)
    · exact hkey "city" (by decide)
  refine ⟨hone, hthree, hclear, ?_⟩
  intro hsame
  exact absurd ((parse_stdout_eq_iff hone hthree hclear hclear').1 hsame) (by decide)

/-- One key that holds a line feed is listed like the two keys that its lines show. -/
theorem same_listing :
    (∀ reading, Path.read reading "a\nkey b" = .ok [.key "a\nkey b"] ∧
      Path.read reading "a.b" = .ok [.key "a", .key "b"]) ∧
      (run ["parse", "a\nkey b"] (.ok "") [] none).stdout = "key a\nkey b\n" ∧
      (run ["parse", "a.b"] (.ok "") [] none).stdout = "key a\nkey b\n" := by
  refine ⟨?_, by decide +kernel, by decide +kernel⟩
  intro reading
  cases reading with
  | lenient => exact ⟨by decide +kernel, by decide +kernel⟩
  | strict => exact ⟨by decide +kernel, by decide +kernel⟩

end Example

end Cli
end DocPath
