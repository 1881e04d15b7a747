import DocPath.Event
import DocPath.Proofs.Joining

/-!
# What lenient reading reports

The lenient reader passes over what the strict one refuses, and reports what it passes over, with
two exceptions: a part without text, and text between two groups.  So its reports tell less than
the strict reader does.  How much less is said exactly in `reported_iff_refused`: there is a report
if and only if the strict reader refuses some part that has text, after the text between its groups
has been taken out; and what the reports miss is only such text.

To take text out from between groups is no matter of deleting characters one by one, since what
comes after has to be cut anew.  The cuts fall where they fell before (`ofPart_withoutStray`): a
group begins with a `[` and ends at the first `]` behind it, whatever has stood in front of it.
-/

namespace DocPath

namespace Piece

/-! ## 1. Without text between groups -/

/-- Whether the piece is text between two groups. -/
def isStray : Piece → Bool
  | stray _ => true
  | _ => false

/-- The pieces that are not text between groups. -/
def kept (ps : List Piece) : List Piece := ps.filter fun p => !p.isStray

/-- A part without the text between its groups. -/
def withoutStray (part : List Char) : List Char := allChars (kept (ofPart part))

variable {p : Piece} {ps : List Piece}

theorem kept_cons_of_isStray (h : p.isStray = true) (ps : List Piece) : kept (p :: ps) = kept ps :=
  List.filter_cons_of_neg (by simp [h])

theorem kept_cons_of_not_isStray (h : p.isStray = false) (ps : List Piece) :
    kept (p :: ps) = p :: kept ps :=
  List.filter_cons_of_pos (by simp [h])

/-- Text between groups breaks the grammar, so pieces are sound if there is none and all others
are. -/
theorem sound_iff_kept : Sound ps ↔ Sound (kept ps) ∧ kept ps = ps := by
  constructor
  · intro h
    have hkept : kept ps = ps := by
      refine List.filter_eq_self.2 ?_
      intro p hp
      cases p with
      | stray text => cases h _ hp
      | dot | vacant | key _ | group _ | trailing _ | unclosed _ => rfl
    exact ⟨by rwa [hkept], hkept⟩
  · rintro ⟨h, hkept⟩
    rwa [hkept] at h

/-- What is kept from the first `[` of a part on is cut into the pieces that were kept. -/
theorem groups_kept (cs : List Char) :
    groups (allChars (kept (groups cs))) = kept (groups cs) := by
  fun_induction groups cs with
  | case1 => simp [kept, allChars, groups]
  | case2 cs hcut =>
    have hchars : allChars (kept [unclosed cs]) = '[' :: cs := by
      simp [allChars, kept, isStray, chars]
    rw [hchars, groups_unclosed (Text.cut?_eq_none_iff.1 hcut)]
    rfl
  | case3 cs content after hcut ih =>
    have hclose := (Text.cut?_eq_some_iff.1 hcut).2
    have hchars : allChars (kept (group content :: groups after)) =
        '[' :: (content ++ ']' :: allChars (kept (groups after))) := by
      simp [allChars, kept, isStray, chars]
    rw [hchars, groups_append hclose, ih, kept_cons_of_not_isStray rfl]
  | case4 c cs hc hcut =>
    have hchars : allChars (kept [trailing (c :: cs)]) = c :: cs := by
      simp [allChars, kept, isStray, chars]
    rw [hchars, groups_trailing hc (Text.cut?_eq_none_iff.1 hcut)]
    rfl
  | case5 c cs hc before after hcut ih =>
    rw [kept_cons_of_isStray rfl]
    exact ih

/-- What is kept from a `[` on begins with it. -/
theorem exists_allChars_kept_groups (cs : List Char) :
    ∃ rest, allChars (kept (groups ('[' :: cs))) = '[' :: rest := by
  cases hcut : Text.cut? ']' cs with
  | none =>
    rw [groups_unclosed (Text.cut?_eq_none_iff.1 hcut)]
    exact ⟨_, rfl⟩
  | some halves =>
    obtain ⟨content, after⟩ := halves
    obtain ⟨rfl, hclose⟩ := Text.cut?_eq_some_iff.1 hcut
    rw [groups_append hclose, kept_cons_of_not_isStray rfl]
    exact ⟨_, rfl⟩

/-- **Taking out text between groups moves no cut.**  The pieces of a part without the text between
its groups are the other pieces of the part. -/
theorem ofPart_withoutStray (part : List Char) :
    ofPart (withoutStray part) = kept (ofPart part) := by
  rw [withoutStray]
  rcases ofPart_cases part with rfl | ⟨hne, hopen⟩ | ⟨name, rest, rfl, hopen⟩
  · rfl
  · have hchars : allChars (kept [key part]) = part := by simp [allChars, kept, isStray, chars]
    rw [ofPart_of_not_mem hne hopen, hchars, ofPart_of_not_mem hne hopen]
    rfl
  · obtain ⟨rest', hrest⟩ := exists_allChars_kept_groups rest
    have hchars : allChars (kept ((if name = [] then [] else [key name]) ++ groups ('[' :: rest))) =
        name ++ '[' :: rest' := by
      rw [kept, List.filter_append, allChars, List.flatMap_append, ← hrest]
      split
      · next hnil => simp [hnil, allChars, kept]
      · simp [allChars, kept, isStray, chars]
    rw [ofPart_append hopen, hchars, ofPart_append hopen, ← hrest, groups_kept, kept, kept,
      List.filter_append]
    split <;> rfl

/-- A part stays as it is if there is no text between its groups. -/
theorem withoutStray_eq_self_iff {part : List Char} :
    withoutStray part = part ↔ kept (ofPart part) = ofPart part := by
  constructor
  · intro h
    rw [← ofPart_withoutStray, h]
  · intro h
    rw [withoutStray, h, allChars_ofPart]

/-- From its first `[` on a part has no piece without text. -/
theorem vacant_not_mem_groups (cs : List Char) : vacant ∉ groups cs := by
  fun_induction groups cs with
  | case1 => exact List.not_mem_nil
  | case2 cs _ => simp
  | case3 cs content after _ ih => simp [ih]
  | case4 c cs _ _ => simp
  | case5 c cs _ before after _ ih => simp [ih]

/-- A part with text has no piece without. -/
theorem vacant_not_mem_ofPart {part : List Char} (h : part ≠ []) : vacant ∉ ofPart part := by
  rcases ofPart_cases part with rfl | ⟨-, hopen⟩ | ⟨name, rest, rfl, hopen⟩
  · exact absurd rfl h
  · simp [ofPart_of_not_mem h hopen]
  · rw [ofPart_append hopen, List.mem_append, not_or]
    refine ⟨?_, vacant_not_mem_groups _⟩
    split <;> simp

/-- What is left of a part has text if the part has. -/
theorem withoutStray_ne_nil {part : List Char} (h : part ≠ []) : withoutStray part ≠ [] := by
  intro hnil
  have hkept := ofPart_withoutStray part
  rw [hnil, ofPart_nil] at hkept
  have hvacant : vacant ∈ ofPart part := (List.mem_filter.1 (hkept ▸ List.mem_cons_self)).1
  exact vacant_not_mem_ofPart h hvacant

/-- What is left of a part holds no character that the part does not hold. -/
theorem not_mem_withoutStray {part : List Char} {c : Char} (h : c ∉ part) :
    c ∉ withoutStray part := by
  intro hc
  obtain ⟨p, hp, hcp⟩ := List.mem_flatMap.1 hc
  have hall : c ∈ allChars (ofPart part) :=
    List.mem_flatMap.2 ⟨p, (List.mem_filter.1 hp).1, hcp⟩
  rw [allChars_ofPart] at hall
  exact h hall

example : withoutStray "a[0]x]y[z]t[1]u".toList = "a[0][z][1]u".toList := by decide +kernel

/-! ## 2. Reports -/

/-- A piece is passed over without a report if there is nothing wrong with it, if it has no text, or
if it is text between groups. -/
theorem dropped?_eq_none_iff {path : String} :
    dropped? path p = none ↔ p.flaw? = none ∨ p = vacant ∨ p.isStray = true := by
  cases p with
  | group content =>
    rw [dropped?, flaw?_group_eq_none_iff]
    split
    · next h => simp [h]
    · next h => simp [h, isStray]
  | dot | vacant | key _ | stray _ | trailing _ | unclosed _ => simp [dropped?, flaw?, isStray]

/-- A part with text is passed over without a report if nothing is wrong with it but text between
its groups. -/
theorem filterMap_dropped?_ofPart_eq_nil_iff {part : List Char} {path : String} (h : part ≠ []) :
    (ofPart part).filterMap (dropped? path) = [] ↔ Sound (kept (ofPart part)) := by
  rw [List.filterMap_eq_nil_iff]
  constructor
  · intro hnone p hp
    obtain ⟨hmem, hkept⟩ := List.mem_filter.1 hp
    rcases dropped?_eq_none_iff.1 (hnone p hmem) with hflaw | rfl | hstray
    · exact hflaw
    · exact absurd hmem (vacant_not_mem_ofPart h)
    · simp [hstray] at hkept
  · intro hsound p hp
    cases hstray : p.isStray with
    | true => exact dropped?_eq_none_iff.2 (.inr (.inr hstray))
    | false =>
      have hmem : p ∈ kept (ofPart part) := List.mem_filter.2 ⟨hp, by simp [hstray]⟩
      exact dropped?_eq_none_iff.2 (.inl (hsound p hmem))

/-- What is reported is coarse. -/
theorem level_of_dropped? {path : String} {event : Event} (h : dropped? path p = some event) :
    event.level = .debug := by
  cases p with
  | group content =>
    rw [dropped?] at h
    split at h
    · cases h
    · cases h
      rfl
  | trailing _ | unclosed _ =>
    cases h
    rfl
  | dot | vacant | key _ | stray _ => cases h

end Piece

namespace Path

/-! ## 3. Reports and refusals -/

/-- Reading the text leniently makes a coarse report. -/
def Reported (text : String) : Prop := ∃ event ∈ readEvents .lenient text, event.level = .debug

/-- The strict reader refuses the text. -/
def Refused (text : List Char) : Prop := ∃ fault, ofText? (String.ofList text) = .error fault

/-- A part with text is refused if not all its pieces are sound. -/
theorem refused_iff {part : List Char} (hne : part ≠ []) (hdot : '.' ∉ part) :
    Refused part ↔ ¬ Piece.Sound (Piece.ofPart part) := by
  have hfault : (∃ fault, fault? (String.ofList part) = some fault) ↔
      ¬ fault? (String.ofList part) = none := by
    cases fault? (String.ofList part) <;> simp
  have htext : String.ofList part ≠ "" := by
    rw [ne_eq, ← String.toList_eq_nil_iff, String.toList_ofList]
    exact hne
  simp only [Refused, ofText?_eq_error_iff, hfault, fault?_eq_none_iff, htext, false_or,
    String.toList_ofList, List.splitOn_eq_singleton hdot, List.forall_mem_singleton]

/-- What is left of a part with text is refused if not all the other pieces are sound. -/
theorem refused_withoutStray_iff {part : List Char} (hne : part ≠ []) (hdot : '.' ∉ part) :
    Refused (Piece.withoutStray part) ↔ ¬ Piece.Sound (Piece.kept (Piece.ofPart part)) := by
  rw [refused_iff (Piece.withoutStray_ne_nil hne) (Piece.not_mem_withoutStray hdot),
    Piece.ofPart_withoutStray]

/-- A part with text is refused for text between its groups, or for what is left of it. -/
theorem refused_iff_withoutStray {part : List Char} (hne : part ≠ []) (hdot : '.' ∉ part) :
    Refused part ↔ Refused (Piece.withoutStray part) ∨ Piece.withoutStray part ≠ part := by
  rw [refused_iff hne hdot, refused_withoutStray_iff hne hdot, Piece.sound_iff_kept,
    ne_eq, Piece.withoutStray_eq_self_iff]
  exact Classical.not_and_iff_not_or_not

/-- The reports on a text are those on its parts. -/
theorem readEvents_eq_flatMap (text : String) :
    readEvents .lenient text = (text.toList.splitOn '.').flatMap fun part =>
      (Piece.ofPart part).filterMap (Piece.dropped? text) :=
  Piece.filterMap_ofText rfl text.toList

/-- There are reports on a part if it has text and what is left of it is refused. -/
theorem filterMap_dropped?_ne_nil_iff {part : List Char} (hdot : '.' ∉ part) (path : String) :
    (Piece.ofPart part).filterMap (Piece.dropped? path) ≠ [] ↔
      part ≠ [] ∧ Refused (Piece.withoutStray part) := by
  by_cases hne : part = []
  · subst hne
    simp [Piece.ofPart_nil, Piece.dropped?]
  · rw [refused_withoutStray_iff hne hdot, ne_eq, Piece.filterMap_dropped?_ofPart_eq_nil_iff hne]
    exact (and_iff_right hne).symm

/-- There is a report if what is left of some part with text is refused. -/
theorem reported_iff (text : String) :
    Reported text ↔
      ∃ part ∈ text.toList.splitOn '.', part ≠ [] ∧ Refused (Piece.withoutStray part) := by
  rw [Reported, readEvents_eq_flatMap]
  constructor
  · rintro ⟨event, hevent, -⟩
    obtain ⟨part, hpart, hmem⟩ := List.mem_flatMap.1 hevent
    have hdot : '.' ∉ part := Text.not_mem_of_mem_splitOn hpart
    exact ⟨part, hpart, (filterMap_dropped?_ne_nil_iff hdot text).1 (List.ne_nil_of_mem hmem)⟩
  · rintro ⟨part, hpart, hrefused⟩
    have hdot : '.' ∉ part := Text.not_mem_of_mem_splitOn hpart
    obtain ⟨event, hevent⟩ := List.exists_mem_of_ne_nil _
      ((filterMap_dropped?_ne_nil_iff hdot text).2 hrefused)
    obtain ⟨piece, -, hpiece⟩ := List.mem_filterMap.1 hevent
    exact ⟨event, List.mem_flatMap.2 ⟨part, hpart, hevent⟩, Piece.level_of_dropped? hpiece⟩

/-- The strict reader refuses a part with text for text between its groups, or refuses what is left
of it. -/
theorem exists_refused_iff (text : String) :
    (∃ part ∈ text.toList.splitOn '.', part ≠ [] ∧ Refused part) ↔
      (∃ part ∈ text.toList.splitOn '.', part ≠ [] ∧ Refused (Piece.withoutStray part)) ∨
        ∃ part ∈ text.toList.splitOn '.', Piece.withoutStray part ≠ part := by
  constructor
  · rintro ⟨part, hpart, hne, hrefused⟩
    have hdot : '.' ∉ part := Text.not_mem_of_mem_splitOn hpart
    rcases (refused_iff_withoutStray hne hdot).1 hrefused with hleft | hstray
    · exact .inl ⟨part, hpart, hne, hleft⟩
    · exact .inr ⟨part, hpart, hstray⟩
  · rintro (⟨part, hpart, hne, hleft⟩ | ⟨part, hpart, hstray⟩)
    · have hdot : '.' ∉ part := Text.not_mem_of_mem_splitOn hpart
      exact ⟨part, hpart, hne, (refused_iff_withoutStray hne hdot).2 (.inl hleft)⟩
    · have hdot : '.' ∉ part := Text.not_mem_of_mem_splitOn hpart
      have hne : part ≠ [] := by
        rintro rfl
        exact hstray rfl
      exact ⟨part, hpart, hne, (refused_iff_withoutStray hne hdot).2 (.inr hstray)⟩

/-- **Lenient reading reports what it drops, but for text between groups.**  There is a report if
and only if the strict reader refuses some part that has text, once the text between its groups has
been taken out.  So reports go together with refusals of parts that have text exactly if text
between groups is not all that is wrong with the text: there is none, or what is left of some part
is refused as well. -/
theorem reported_iff_refused (text : String) :
    (Reported text ↔
      ∃ part ∈ text.toList.splitOn '.', part ≠ [] ∧ Refused (Piece.withoutStray part)) ∧
    ((Reported text ↔ ∃ part ∈ text.toList.splitOn '.', part ≠ [] ∧ Refused part) ↔
      ((∃ part ∈ text.toList.splitOn '.', Piece.withoutStray part ≠ part) →
        ∃ part ∈ text.toList.splitOn '.', part ≠ [] ∧ Refused (Piece.withoutStray part))) := by
  have hreport := reported_iff text
  refine ⟨hreport, ?_⟩
  rw [exists_refused_iff, ← hreport]
  constructor
  · intro h hstray
    exact h.2 (.inr hstray)
  · intro h
    exact ⟨.inl, fun hor => hor.elim id h⟩

namespace Example

/-- The strict reader refuses `x` between two groups, and nothing is reported. -/
theorem unreported_between_groups :
    ¬ Reported "a[0]x[1]" ∧
      ∃ part ∈ "a[0]x[1]".toList.splitOn '.', part ≠ [] ∧ Refused part := by
  have hnone : readEvents .lenient "a[0]x[1]" = [] := by decide +kernel
  have hpart : "a[0]x[1]".toList ∈ "a[0]x[1]".toList.splitOn '.' := by decide +kernel
  have hfault : fault? "a[0]x[1]" = some ⟨4, .textBetweenGroups⟩ := by decide +kernel
  refine ⟨?_, "a[0]x[1]".toList, hpart, by decide, ⟨4, .textBetweenGroups⟩, ?_⟩
  · rintro ⟨event, hevent, -⟩
    rw [hnone] at hevent
    cases hevent
  · exact ofText?_eq_error_iff.2 hfault

end Example

end Path

end DocPath
