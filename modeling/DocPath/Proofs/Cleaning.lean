import DocPath.Proofs.Grammar

/-!
# Lenient reading is strict reading of a cleaned text

The lenient reader takes any text.  What it makes of a text is told here without it, by deleting
characters: `Path.clean` cuts a text into parts at the dots, keeps of every part the text before
its first `[` and those of its groups that the grammar allows, and drops the parts that have nothing
left.

Main statement (`ofText?_clean`): the cleaned text is accepted by the strict reader, which reads it
as the path that the lenient reader reads from the whole text; and the texts that the strict reader
accepts are exactly those in which there is nothing to clean.

Both halves go through the grammar of path texts.  A cleaned part is empty or a part of the grammar,
with the segments of the pieces of the whole part (`cleanPart_cases`); and cleaning leaves a part of
the grammar as it is (`cleanPart_of_isPart`).
-/

namespace DocPath

/-! ## 1. Cleaning -/

/-- The text between brackets is one that the grammar allows there. -/
def Allowed (content : List Char) : Prop := ∃ s, IsGroup ('[' :: (content ++ [']'])) s

theorem allowed_iff {content : List Char} :
    Allowed content ↔ (Segment.ofGroup? content).isSome := by
  simp only [Allowed, ← Segment.ofGroup?_eq_some_iff, Option.isSome_iff_exists]

instance : DecidablePred Allowed := fun _ => decidable_of_iff _ allowed_iff.symm

/-- What the groups of a text hold, from left to right, read character by character: outside a
group a `[` opens one, and inside a group, of which `held` has been read, a `]` closes it.  A group
that is not closed is none. -/
def groupContents : Option (List Char) → List Char → List (List Char)
  | _, [] => []
  | none, c :: cs => if c = '[' then groupContents (some []) cs else groupContents none cs
  | some held, c :: cs =>
    if c = ']' then held :: groupContents none cs else groupContents (some (held ++ [c])) cs

/-- The groups of a text that the grammar allows, with their brackets. -/
def allowedGroups (cs : List Char) : List (List Char) :=
  ((groupContents none cs).filter fun content => Allowed content).map
    fun content => '[' :: (content ++ [']'])

/-- A part without what the grammar does not allow in it. -/
def cleanPart (part : List Char) : List Char :=
  part.takeWhile (· ≠ '[') ++ (allowedGroups part).flatten

/-- A text without what the grammar does not allow in it, parts that are empty then included. -/
def Path.clean (text : String) : String :=
  String.ofList
    (['.'].intercalate (((text.toList.splitOn '.').map cleanPart).filter (· ≠ [])))

/-! ## 2. The groups of a text -/

/-- Text before the first `[` holds no group. -/
theorem groupContents_append {before : List Char} (h : '[' ∉ before) (rest : List Char) :
    groupContents none (before ++ rest) = groupContents none rest := by
  induction before with
  | nil => rfl
  | cons c before ih =>
    obtain ⟨hc, hbefore⟩ := not_or.1 (mt List.mem_cons.2 h)
    rw [List.cons_append, groupContents, if_neg fun e => hc e.symm, ih hbefore]

/-- A text without `[` holds no group. -/
theorem groupContents_of_not_mem {cs : List Char} (h : '[' ∉ cs) : groupContents none cs = [] := by
  have hall := groupContents_append h []
  rwa [List.append_nil] at hall

/-- An open group that no `]` closes is none. -/
theorem groupContents_unclosed {cs : List Char} (h : ']' ∉ cs) (held : List Char) :
    groupContents (some held) cs = [] := by
  induction cs generalizing held with
  | nil => rfl
  | cons c cs ih =>
    obtain ⟨hc, hcs⟩ := not_or.1 (mt List.mem_cons.2 h)
    rw [groupContents, if_neg fun e => hc e.symm, ih hcs]

/-- An open group is closed by the first `]`, and the next one is sought behind it. -/
theorem groupContents_closed {inside : List Char} (h : ']' ∉ inside) (held rest : List Char) :
    groupContents (some held) (inside ++ ']' :: rest) =
      (held ++ inside) :: groupContents none rest := by
  induction inside generalizing held with
  | nil => rw [List.nil_append, groupContents, if_pos rfl, List.append_nil]
  | cons c inside ih =>
    obtain ⟨hc, hinside⟩ := not_or.1 (mt List.mem_cons.2 h)
    rw [List.cons_append, groupContents, if_neg fun e => hc e.symm, ih hinside, List.append_assoc,
      List.singleton_append]

theorem allowedGroups_append {before : List Char} (h : '[' ∉ before) (rest : List Char) :
    allowedGroups (before ++ rest) = allowedGroups rest := by
  rw [allowedGroups, groupContents_append h, allowedGroups]

theorem allowedGroups_of_not_mem {cs : List Char} (h : '[' ∉ cs) : allowedGroups cs = [] := by
  rw [allowedGroups, groupContents_of_not_mem h, List.filter_nil, List.map_nil]

theorem allowedGroups_unclosed {cs : List Char} (h : ']' ∉ cs) :
    allowedGroups ('[' :: cs) = [] := by
  rw [allowedGroups, groupContents, if_pos rfl, groupContents_unclosed h, List.filter_nil,
    List.map_nil]

/-- A group stays if the grammar allows it. -/
theorem allowedGroups_closed {content : List Char} (h : ']' ∉ content) (rest : List Char) :
    allowedGroups ('[' :: (content ++ ']' :: rest)) =
      if Allowed content then ('[' :: (content ++ [']'])) :: allowedGroups rest
      else allowedGroups rest := by
  rw [allowedGroups, groupContents, if_pos rfl, groupContents_closed h, List.nil_append]
  by_cases hallowed : Allowed content
  · simp [hallowed, allowedGroups]
  · simp [hallowed, allowedGroups]

/-- What stays of the groups is in the grammar, and has the segments of the pieces. -/
theorem isGroup_allowedGroups (cs : List Char) :
    List.Forall₂ IsGroup (allowedGroups cs) (Piece.segments (Piece.groups cs)) := by
  fun_induction Piece.groups cs with
  | case1 => exact .nil
  | case2 cs hcut =>
    rw [allowedGroups_unclosed (Text.cut?_eq_none_iff.1 hcut)]
    exact .nil
  | case3 cs content after hcut ih =>
    obtain ⟨rfl, hclose⟩ := Text.cut?_eq_some_iff.1 hcut
    rw [allowedGroups_closed hclose, Piece.segments_cons, Piece.segment?]
    by_cases hallowed : Allowed content
    · obtain ⟨s, hs⟩ := hallowed
      rw [if_pos ⟨s, hs⟩, Segment.ofGroup?_eq_some_iff.2 hs]
      exact .cons hs ih
    · have hnone : Segment.ofGroup? content = none := by
        rwa [allowed_iff, Option.not_isSome_iff_eq_none] at hallowed
      rw [if_neg hallowed, hnone]
      exact ih
  | case4 c cs hc hcut =>
    have hopen : '[' ∉ c :: cs := by
      simpa [Text.cut?_eq_none_iff.1 hcut] using fun e => hc e.symm
    rw [allowedGroups_of_not_mem hopen]
    exact .nil
  | case5 c cs hc before after hcut ih =>
    obtain ⟨rfl, hopen⟩ := Text.cut?_eq_some_iff.1 hcut
    have hopen' : '[' ∉ c :: before := by
      simpa [hopen] using fun e => hc e.symm
    have hskip := allowedGroups_append hopen' ('[' :: after)
    rw [List.cons_append] at hskip
    rw [hskip]
    exact ih

/-- The groups of the grammar all stay. -/
theorem allowedGroups_flatten {gs : List (List Char)} {p : Path}
    (h : List.Forall₂ IsGroup gs p) : allowedGroups gs.flatten = gs := by
  induction h with
  | nil => rfl
  | @cons g s gs p hg _ ih =>
    obtain ⟨content, rfl, hclose, -⟩ := exists_content_of_isGroup hg
    have hallowed : Allowed content := ⟨s, hg⟩
    have htext : List.flatten (('[' :: (content ++ [']'])) :: gs) =
        '[' :: (content ++ ']' :: gs.flatten) := by simp
    rw [htext, allowedGroups_closed hclose, if_pos hallowed, ih]

/-! ## 3. Parts -/

/-- Cleaning a part keeps its key and cleans the groups behind it. -/
theorem cleanPart_append {name rest : List Char} (hopen : '[' ∉ name)
    (hrest : ∀ c ∈ rest.head?, c = '[') :
    cleanPart (name ++ rest) = name ++ (allowedGroups rest).flatten := by
  have hname : ∀ c ∈ name, decide (c ≠ '[') = true := by
    intro c hc
    have hne : c ≠ '[' := fun e => hopen (e ▸ hc)
    simp [hne]
  have hnone : rest.takeWhile (· ≠ '[') = [] := by
    cases rest with
    | nil => rfl
    | cons c cs => simp [hrest c rfl]
  rw [cleanPart, List.takeWhile_append_of_pos hname, hnone, List.append_nil,
    allowedGroups_append hopen]

/-- Groups begin with a `[`. -/
theorem head?_flatten_of_isGroup {gs : List (List Char)} {p : Path}
    (h : List.Forall₂ IsGroup gs p) : ∀ c ∈ gs.flatten.head?, c = '[' := by
  cases h with
  | nil => exact fun c hc => nomatch hc
  | cons hg _ =>
    obtain ⟨content, rfl, -, -⟩ := exists_content_of_isGroup hg
    intro c hc
    exact (Option.some.inj hc).symm

/-- A part of the grammar is not empty, and cleaning leaves it as it is. -/
theorem cleanPart_of_isPart {part : List Char} {p : Path} (h : IsPart part p) :
    part ≠ [] ∧ cleanPart part = part := by
  cases h with
  | keyed hne _ hopen hgs =>
    refine ⟨fun e => hne (List.append_eq_nil_iff.1 e).1, ?_⟩
    rw [cleanPart_append hopen (head?_flatten_of_isGroup hgs), allowedGroups_flatten hgs]
  | @bare gs p hne hgs =>
    have hclean := cleanPart_append (List.not_mem_nil : '[' ∉ ([] : List Char))
      (head?_flatten_of_isGroup hgs)
    rw [List.nil_append, List.nil_append, allowedGroups_flatten hgs] at hclean
    refine ⟨?_, hclean⟩
    cases hgs with
    | nil => exact absurd rfl hne
    | cons hg _ =>
      obtain ⟨content, rfl, -, -⟩ := exists_content_of_isGroup hg
      exact fun e => nomatch e

/-- What is left of a part without dots is a part of the grammar, with the segments of its pieces;
or nothing is left, and the pieces stand for no segment. -/
theorem cleanPart_cases {part : List Char} (hdot : '.' ∉ part) :
    IsPart (cleanPart part) (Piece.segments (Piece.ofPart part)) ∨
      (cleanPart part = [] ∧ Piece.segments (Piece.ofPart part) = []) := by
  rcases Piece.ofPart_cases part with rfl | ⟨hne, hopen⟩ | ⟨name, rest, rfl, hopen⟩
  · exact .inr ⟨rfl, rfl⟩
  · have hclean : cleanPart (part ++ []) = part ++ (allowedGroups []).flatten :=
      cleanPart_append hopen fun c hc => nomatch hc
    rw [List.append_nil, allowedGroups_of_not_mem List.not_mem_nil] at hclean
    rw [hclean, Piece.ofPart_of_not_mem hne hopen]
    exact .inl (.keyed hne hdot hopen .nil)
  · have hgs := isGroup_allowedGroups ('[' :: rest)
    have hname : '.' ∉ name := fun hc => hdot (List.mem_append_left _ hc)
    have hhead : ∀ c ∈ ('[' :: rest).head?, c = '[' := by
      intro c hc
      exact (Option.some.inj hc).symm
    rw [cleanPart_append hopen hhead, Piece.ofPart_append hopen, Piece.segments_append]
    by_cases hnil : name = []
    · subst hnil
      rw [if_pos rfl, Piece.segments_nil, List.nil_append, List.nil_append]
      by_cases hempty : allowedGroups ('[' :: rest) = []
      · rw [hempty] at hgs
        exact .inr ⟨by rw [hempty, List.flatten_nil], List.forall₂_nil_left_iff.1 hgs⟩
      · exact .inl (.bare hempty hgs)
    · rw [if_neg hnil]
      exact .inl (.keyed hnil hname hopen hgs)

/-! ## 4. Texts -/

/-- What is left of parts without dots: parts of the grammar, with the segments of all the
pieces. -/
theorem exists_paths_of_cleanPart {parts : List (List Char)} (hdots : ∀ part ∈ parts, '.' ∉ part) :
    ∃ ps, List.Forall₂ IsPart ((parts.map cleanPart).filter (· ≠ [])) ps ∧
      ps.flatten = parts.flatMap fun part => Piece.segments (Piece.ofPart part) := by
  induction parts with
  | nil => exact ⟨[], .nil, rfl⟩
  | cons part parts ih =>
    obtain ⟨hdot, hrest⟩ := List.forall_mem_cons.1 hdots
    obtain ⟨ps, hps, hsegments⟩ := ih hrest
    rw [List.map_cons, List.flatMap_cons, ← hsegments]
    rcases cleanPart_cases hdot with hpart | ⟨hnil, hnone⟩
    · have hne : cleanPart part ≠ [] := (cleanPart_of_isPart hpart).1
      rw [List.filter_cons_of_pos (by simpa using hne)]
      exact ⟨_ :: ps, .cons hpart hps, rfl⟩
    · rw [List.filter_cons_of_neg (by simpa using hnil), hnone]
      exact ⟨ps, hps, rfl⟩

/-- Parts of the grammar stay as they are. -/
theorem filter_cleanPart_of_isPart {parts : List (List Char)} {ps : List Path}
    (h : List.Forall₂ IsPart parts ps) : (parts.map cleanPart).filter (· ≠ []) = parts := by
  induction h with
  | nil => rfl
  | cons hpart _ ih =>
    obtain ⟨hne, hclean⟩ := cleanPart_of_isPart hpart
    rw [List.map_cons, hclean, List.filter_cons_of_pos (by simpa using hne), ih]

namespace Path

/-- The cleaned text is one of the grammar, with the path that the lenient reader reads. -/
theorem isPathText_clean (text : String) : IsPathText (clean text).toList (ofText text) := by
  have hdots : ∀ part ∈ text.toList.splitOn '.', '.' ∉ part :=
    fun _ => Text.not_mem_of_mem_splitOn
  obtain ⟨ps, hparts, hsegments⟩ := exists_paths_of_cleanPart hdots
  rw [clean, String.toList_ofList, ofText_eq, Piece.segments_ofText, ← hsegments]
  generalize ((text.toList.splitOn '.').map cleanPart).filter (· ≠ []) = parts at hparts
  cases hparts with
  | nil => exact .empty
  | cons hpart hparts => exact .parts (List.cons_ne_nil _ _) (.cons hpart hparts)

/-- A text of the grammar is clean. -/
theorem clean_of_isPathText {text : String} {p : Path} (h : IsPathText text.toList p) :
    clean text = text := by
  generalize hcs : text.toList = cs at h
  cases h with
  | empty =>
    rw [String.toList_eq_nil_iff.1 hcs]
    rfl
  | @parts parts ps hne hparts =>
    have hdots : ∀ part ∈ parts, '.' ∉ part := (sound_of_forall₂_isPart hparts).1
    rw [clean, hcs, List.splitOn_intercalate '.' hdots hne, filter_cleanPart_of_isPart hparts,
      ← hcs, String.ofList_toList]

/-- **Lenient reading is strict reading of the cleaned text.**  The cleaned text is read strictly,
as the path that the lenient reader reads from the whole text.  The strict reader accepts the texts
that are clean and no others, and reads them as the lenient one does. -/
theorem ofText?_clean (text : String) :
    ofText? (clean text) = .ok (ofText text) ∧
      ((∃ p, ofText? text = .ok p) ↔ clean text = text) ∧
      ∀ p, ofText? text = .ok p ↔ clean text = text ∧ ofText text = p := by
  have hclean : ofText? (clean text) = .ok (ofText text) :=
    ofText?_of_isPathText (isPathText_clean text)
  have hiff (p : Path) : ofText? text = .ok p ↔ clean text = text ∧ ofText text = p := by
    constructor
    · intro h
      exact ⟨clean_of_isPathText (isPathText_of_ofText? h), ofText_of_ofText? h⟩
    · rintro ⟨htext, rfl⟩
      rwa [htext] at hclean
  refine ⟨hclean, ?_, hiff⟩
  constructor
  · rintro ⟨p, hp⟩
    exact ((hiff p).1 hp).1
  · intro htext
    exact ⟨ofText text, (hiff _).2 ⟨htext, rfl⟩⟩

example : clean "a[0]junk[1].[x]..b[[2]][+3].c[*" = "a[0][1].b[+3].c" := by decide +kernel

end Path

end DocPath
