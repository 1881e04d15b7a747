import DocPath.Proofs.Commands

/-!
# Commands write all or nothing

A command that fails leaves the files as they were and shows nothing, whatever it had done to the
document it read; a set command with an output that exits with zero leaves the text of the document
after the assignment in that file, and every other file as it was; and no other command touches a
file (`run_all_or_nothing`).  The output may be the file that was read, under the same name or not,
for the text that was read is what that file held before.

All of this is about files that keep what is written to them, and about names that lead to such
files.  A name that the operating system takes for a device or for a standard stream is outside of
it: `Files` has none, so an output of that name is a file here, and what is written to it is not
among what the run shows.

That the text is found under the name it was written to (`read_of_write`) is not a matter of course:
the file may be new, and then it must not be in the way of the steps that lead to it.  It is not,
because no file is written where a directory is.
-/

namespace DocPath.Cli

variable {files after : Files} {place target reached : Place} {slash : Bool} {name text : String}
  {step : List Char} {steps : List (List Char)}

namespace Files

/-! ## 1. What a file more changes -/

theorem hasFile_insert (key : String) (content : Content) (files : Files) (place : Place) :
    hasFile (Fields.insert key content files) place =
      (decide (key = place.text) || files.hasFile place) := by
  unfold hasFile
  rw [Fields.get?_insert]
  split
  · next h => simp [h]
  · next h => simp [h]

/-- A directory stays one. -/
theorem hasDirectory_insert (h : files.hasDirectory place = true) (key : String)
    (content : Content) : hasDirectory (Fields.insert key content files) place = true := by
  unfold hasDirectory at h ⊢
  rw [Bool.or_eq_true] at h ⊢
  refine h.imp_right ?_
  intro hany
  rw [Fields.keys_insert]
  split
  · exact hany
  · rw [List.any_append, hany, Bool.true_or]

/-- Below a step downward there is a directory by what the text of the place tells. -/
theorem hasDirectory_down_of_text_eq {s t : List Char} {p q : Place} (hs : s ≠ upward)
    (ht : t ≠ upward) (htext : (p.down s).text = (q.down t).text) (files : Files) :
    files.hasDirectory (p.down s) = files.hasDirectory (q.down t) := by
  unfold hasDirectory
  rw [Place.isAbove_down hs, Place.isAbove_down ht, htext]

/-- Where a file may be written: there is one, or there is no directory. -/
def Free (files : Files) (place : Place) : Prop :=
  files.hasFile place = true ∨ files.hasDirectory place = false

/-- Where a step downward leads to a directory, no file may be written. -/
theorem text_ne_of_hasDirectory {next : List Char} (hstep : step ≠ upward) (hnext : next ≠ upward)
    (hfree : files.Free (target.down step)) (hfile : files.hasFile (place.down next) = false)
    (hdirectory : files.hasDirectory (place.down next) = true) :
    (target.down step).text ≠ (place.down next).text := by
  intro htext
  rcases hfree with hthere | hnot
  · rw [hasFile, htext] at hthere
    rw [hasFile, hthere] at hfile
    cases hfile
  · rw [hasDirectory_down_of_text_eq hstep hnext htext, hdirectory] at hnot
    cases hnot

/-- **A file that is written is not in the way**: steps that led to a directory before still do. -/
theorem follow_insert (hstep : step ≠ upward) (hfree : files.Free (target.down step))
    (content : Content) (h : files.follow place steps = .ok reached) :
    follow (Fields.insert (target.down step).text content files) place steps = .ok reached := by
  fun_induction follow files place steps with
  | case1 place => exact h
  | case2 place steps ih => rw [follow, if_pos rfl, ih h]
  | case3 place steps hstays ih => rw [follow, if_neg hstays, if_pos rfl, ih h]
  | case4 => cases h
  | case5 => cases h
  | case6 place next steps hstays hup hshort hfile hdirectory ih =>
    -- the one step that could be answered otherwise: the new file may not stand here
    have hfile : files.hasFile (place.down next) = false := by simpa using hfile
    have hapart := text_ne_of_hasDirectory hstep hup hfree hfile hdirectory
    have hfile' : hasFile (Fields.insert (target.down step).text content files)
        (place.down next) = false := by
      rw [hasFile_insert, hfile]
      simpa using hapart
    have hdirectory' := hasDirectory_insert hdirectory (target.down step).text content
    simp only [follow, hstays, hup, hshort, hfile', hdirectory', ih h, ↓reduceIte,
      Bool.false_eq_true]
  | case7 => cases h

/-- What it takes to reach a file to write: a short step downward, no slash after it, and a place
where a file may be written. -/
theorem arrive_writing (h : files.arrive .writing slash step place = .ok reached) :
    step ≠ inPlace ∧ step ≠ upward ∧ slash = false ∧ Text.byteCount step ≤ maxStepBytes ∧
      reached = place.down step ∧ files.Free reached := by
  unfold arrive at h
  dsimp only at h
  split at h
  · cases h
  · next hdown =>
    obtain ⟨hstays, hup⟩ := not_or.1 hdown
    split at h
    · cases h
    · next hslash =>
      obtain rfl : slash = false := by simpa using hslash
      split at h
      · cases h
      · next hshort =>
        have hreached : reached = place.down step ∧ files.Free (place.down step) := by
          split at h
          · next hfile => exact ⟨(Except.ok.inj h).symm, .inl hfile⟩
          · split at h
            · cases h
            · next hnot => exact ⟨(Except.ok.inj h).symm, .inr (by simpa using hnot)⟩
        obtain ⟨rfl, hfree⟩ := hreached
        exact ⟨hstays, hup, rfl, Nat.le_of_not_lt hshort, rfl, hfree⟩

/-- A file that is there is reached by a short step downward. -/
theorem arrive_reading (hstays : step ≠ inPlace) (hup : step ≠ upward)
    (hshort : Text.byteCount step ≤ maxStepBytes)
    (hfile : files.hasFile (place.down step) = true) :
    files.arrive .reading false step place = .ok (place.down step) := by
  simp [arrive, hstays, hup, Nat.not_lt.2 hshort, hfile]

/-- A file that is written is found. -/
theorem locate_insert (h : files.locate .writing name = .ok reached) (content : Content) :
    locate (Fields.insert reached.text content files) .reading name = .ok reached := by
  unfold locate at h ⊢
  dsimp only at h ⊢
  split at h
  · cases h
  · next hsome =>
    rw [if_neg hsome]
    split at h
    · cases h
    · next hshort =>
      rw [if_neg hshort]
      split at h
      · cases h
      · next last hlast =>
        split at h
        · cases h
        · next place hfollow =>
          obtain ⟨hstays, hup, hslash, hstep, rfl, hfree⟩ := arrive_writing h
          have hfile : hasFile (Fields.insert (place.down last).text content files)
              (place.down last) = true := by
            simp [hasFile_insert]
          simp only [follow_insert hup hfree content hfollow, hslash,
            arrive_reading hstays hup hstep hfile]

/-- What is written goes to the place of the file, and is the only change. -/
theorem exists_of_write (h : files.write name text = .ok after) :
    ∃ place, files.locate .writing name = .ok place ∧
      after = Fields.insert place.text (.ok text) files := by
  unfold write at h
  cases hlocate : files.locate .writing name with
  | error fault =>
    rw [hlocate] at h
    cases h
  | ok place =>
    rw [hlocate] at h
    exact ⟨place, rfl, (Except.ok.inj h).symm⟩

/-- What is written to a file is read from it. -/
theorem read_of_write (h : files.write name text = .ok after) : after.read name = .ok text := by
  obtain ⟨place, hlocate, rfl⟩ := exists_of_write h
  simp only [read, locate_insert hlocate, Fields.get?_insert, ↓reduceIte, Option.getD_some]

end Files

/-! ## 2. What a run leaves -/

/-- **Commands write all or nothing.**  A run exits with zero or one.  If it exits with one, it has
shown nothing, and the files are as they were; they are so too if it exits with zero and has no
output file.  A set command with an output file that exits with zero has shown nothing; the path
and the document were read, the document from what its source held before; the output file, which
is found under its name, holds the text of the document after the assignment with one line feed
behind it, and every other file is as it was.  The output file is no device: what is written there
is kept there. -/
theorem run_all_or_nothing (stdin : Content) (files : Files) (filter : LogFilter)
    (command : Command) (left : Outcome) (h : command.run stdin files filter = left) :
    (left.code = 0 ∨ left.code = 1) ∧
      (left.code = 1 → left.stdout = "" ∧ left.files = files) ∧
      (left.code = 0 → command.output? = none → left.files = files) ∧
      ∀ path value reading raw input? name layout,
        command = .set path value reading raw input? (some name) layout → left.code = 0 →
        left.stdout = "" ∧
        ∃ (p : Path) (text : String) (d w e : Document) (place : Place),
          Path.read reading path = .ok p ∧ command.source.content stdin files = .ok text ∧
          Document.ofText? text = .ok d ∧ Means value raw w ∧
          d.setAt (.ofPath p) w = (e, none) ∧ files.locate .writing name = .ok place ∧
          Fields.get? place.text left.files = some (.ok (Document.text layout e ++ "\n")) ∧
          left.files.read name = .ok (Document.text layout e ++ "\n") ∧
          ∀ key, key ≠ place.text →
            Fields.get? key left.files = Fields.get? key files := by
  have hnothing : (left.code = 0 ∨ left.code = 1) ∧
      (left.code = 1 → left.stdout = "" ∧ left.files = files) ∧
      (left.code = 0 → command.output? = none → left.files = files) := by
    rcases Command.run_cases h with ⟨hcode, hstdout, hfiles⟩ | ⟨hcode, response, -, hleft⟩
    · exact ⟨.inr hcode, fun _ => ⟨hstdout, hfiles⟩, fun _ _ => hfiles⟩
    · refine ⟨.inl hcode, fun hone => absurd (hcode.symm.trans hone) (by decide), ?_⟩
      intro _ hnone
      rcases hleft with ⟨-, -, hfiles⟩ | ⟨name, houtput, -, -⟩
      · exact hfiles
      · cases hnone.symm.trans houtput
  obtain ⟨hcodes, hfailed, hshown⟩ := hnothing
  refine ⟨hcodes, hfailed, hshown, ?_⟩
  rintro path value reading raw input? name layout rfl hcode
  obtain ⟨p, text, d, e, hp, htext, hd, hset, hleft⟩ := Command.set_run_cases h hcode
  rcases hleft with ⟨hnone, -, -⟩ | ⟨name', houtput, hstdout, hwrite⟩
  · cases hnone
  · cases houtput
    have hread := Files.read_of_write hwrite
    obtain ⟨place, hlocate, hfiles⟩ := Files.exists_of_write hwrite
    refine ⟨hstdout, p, text, d, _, e, place, hp, htext, hd, means_valueOf value raw, hset,
      hlocate, ?_, hread, ?_⟩
    · rw [hfiles, Fields.get?_insert, if_pos rfl]
    · intro key hkey
      rw [hfiles, Fields.get?_insert, if_neg fun e => hkey e.symm]

namespace Example

/-- A file with a document, and one that is not to be touched. -/
def twoFiles : Files := [("d/a.json", .ok stored), ("b.txt", .ok "b")]

/-- A set command that writes into the file it reads, under another name. -/
def setInPlace : Command :=
  .set "a.b" "1" .strict true (some "d/a.json") (some "./d/../d/a.json") .compact

/-- A set command that makes two objects and then meets one where it needs an array. -/
def setBeyond : Command :=
  .set "a.b[0]" "1" .strict true (some "d/a.json") (some "d/a.json") .compact

theorem written_in_place_or_not_at_all :
    (setInPlace.run (.ok "") twoFiles []).code = 0 ∧
      (setInPlace.run (.ok "") twoFiles []).stdout = "" ∧
      (∃ e, storedDocument.setAt (.ofPath [.key "a", .key "b"]) (.string "1") = (e, none) ∧
        (setInPlace.run (.ok "") twoFiles []).files.read "./d/../d/a.json" =
          .ok (Document.text .compact e ++ "\n")) ∧
      Fields.get? "b.txt" (setInPlace.run (.ok "") twoFiles []).files = some (.ok "b") ∧
      (setBeyond.run (.ok "") twoFiles []).code = 1 ∧
      (setBeyond.run (.ok "") twoFiles []).stdout = "" ∧
      (setBeyond.run (.ok "") twoFiles []).files = twoFiles := by
  have hcode : (setInPlace.run (.ok "") twoFiles []).code = 0 := by decide +kernel
  have hfailed : (setBeyond.run (.ok "") twoFiles []).code = 1 := by decide +kernel
  obtain ⟨-, -, -, hwritten⟩ := run_all_or_nothing (.ok "") twoFiles [] setInPlace _ rfl
  obtain ⟨-, hnothing, -, -⟩ := run_all_or_nothing (.ok "") twoFiles [] setBeyond _ rfl
  obtain ⟨hstdout, p, text, d, w, e, place, hp, htext, hd, hmeans, hset, hplace, -, hread,
    helse⟩ := hwritten _ _ _ _ _ _ _ rfl hcode
  have hpath : Path.read .strict "a.b" = .ok [.key "a", .key "b"] := by decide +kernel
  have hheld : twoFiles.read "d/a.json" = .ok stored := by decide +kernel
  have hstored : Document.ofText? stored = .ok storedDocument := by decide +kernel
  have hlocate : twoFiles.locate .writing "./d/../d/a.json" =
      .ok ⟨false, ["a.json".toList, "d".toList]⟩ := by decide +kernel
  cases hp.symm.trans hpath
  cases htext.symm.trans hheld
  cases hd.symm.trans hstored
  cases hmeans
  cases hplace.symm.trans hlocate
  exact ⟨hcode, hstdout, ⟨e, hset, hread⟩, helse "b.txt" (by decide), hfailed,
    hnothing hfailed⟩

end Example

end DocPath.Cli
