import DocPath.Cli.Run
import DocPath.Proofs.DistinctNames
import DocPath.Proofs.Nesting

/-!
# Commands read what commands write

The set command makes a text and the get command reads one.  A text that the set command has made is
accepted if and only if the document in it nests at most 127 levels (`written_accepted_iff`): an
assignment may lead deeper than the reader goes, and the writer goes along.

Where the text is accepted and holds no numbers but integers of 64 bits, the get command shows the
value that was assigned, as the word for it was meant (`get_run_of_set_run`).
-/

namespace DocPath.Cli

/-! ## 1. What is read -/

/-- What a word stands for as a value, raw or not. -/
inductive Means (word : String) : Bool → Document → Prop where
  /-- A raw word is a string. -/
  | raw : Means word true (.string word)
  /-- A word that is a JSON text is the document it describes. -/
  | document {d : Document} : Document.ofText? word = .ok d → Means word false d
  /-- Any other word is a string. -/
  | other {fault : Json.Fault} : Document.ofText? word = .error fault →
    Means word false (.string word)

theorem means_valueOf (word : String) (raw : Bool) : Means word raw (valueOf word raw).1 := by
  unfold valueOf
  cases raw with
  | true => exact .raw
  | false =>
    rw [if_neg (by decide)]
    split
    · next hread => exact .document hread
    · next hread => exact .other hread

theorem Means.wellFormed {word : String} {raw : Bool} {w : Document} (h : Means word raw w) :
    w.WellFormed := by
  cases h with
  | raw => exact .string _
  | document hread => exact Document.wellFormed_of_ofText? hread
  | other _ => exact .string _

variable {content stdin : Content} {source : Source} {files : Files} {filter : LogFilter}
  {path value : String} {reading : Reading} {raw : Bool} {input? : Option String}
  {layout : Json.Layout} {p : Path} {d e v : Document}

theorem readPath_eq_ok_iff : readPath reading path = .ok p ↔ Path.read reading path = .ok p := by
  unfold readPath
  cases Path.read reading path with
  | ok p => simp
  | error fault => simp

theorem readDocument_eq_ok_iff :
    readDocument source content = .ok d ↔
      ∃ text, content = .ok text ∧ Document.ofText? text = .ok d := by
  unfold readDocument
  split
  · simp
  · next text =>
    split
    · next hread => simp [hread]
    · next hread => simp [hread]

theorem isBlank_of_mem_lineFeed : ∀ b ∈ "\n".toList, Json.isBlank b = true := by
  simp [Json.isBlank]

/-- A document in a text with a line feed behind it is accepted if it is not too deep. -/
theorem exists_readDocument_iff (hw : d.WellFormed) (source : Source) (layout : Json.Layout) :
    (∃ e, readDocument source (.ok (d.text layout ++ "\n")) = .ok e) ↔ d.depth ≤ 127 := by
  rw [← Document.exists_ofText?_text_iff hw layout "\n" isBlank_of_mem_lineFeed]
  simp [readDocument_eq_ok_iff]

/-! ## 2. What the commands do -/

namespace Command

/-- The file that a command is asked to write; none for the standard output. -/
def output? : Command → Option String
  | get _ _ _ _ => none
  | set _ _ _ _ _ output? _ => output?
  | parse _ _ => none

/-- A set command that makes a text has read a path and a document, has assigned the value, and has
made the text of the document after that, for its output. -/
theorem exists_of_set_respond {output? : Option String} {response : Response}
    (h : ((set path value reading raw input? output? layout).respond content).1 = .ok response) :
    ∃ (p : Path) (text : String) (d e : Document), Path.read reading path = .ok p ∧
      content = .ok text ∧ Document.ofText? text = .ok d ∧
      d.setAt (.ofPath p) (valueOf value raw).1 = (e, none) ∧
      response.text = Document.text layout e ++ "\n" ∧ response.target? = output? := by
  rw [respond] at h
  cases hp : readPath reading path with
  | error report =>
    simp only [hp] at h
    cases h
  | ok p =>
    cases hd : readDocument (set path value reading raw input? output? layout).source content with
    | error report =>
      simp only [hp, hd] at h
      cases h
    | ok d =>
      cases hset : d.setAt (.ofPath p) (valueOf value raw).1 with
      | mk e failure? =>
        cases failure? with
        | some failure =>
          simp only [hp, hd, hset] at h
          cases h
        | none =>
          simp only [hp, hd, hset] at h
          cases h
          obtain ⟨text, htext, hread⟩ := readDocument_eq_ok_iff.1 hd
          exact ⟨p, text, d, e, readPath_eq_ok_iff.1 hp, htext, hread, hset, rfl, rfl⟩

/-- What a command makes is for its output. -/
theorem target?_of_respond {command : Command} {response : Response}
    (h : (command.respond content).1 = .ok response) : response.target? = command.output? := by
  cases command with
  | get path reading input? layout =>
    rw [respond] at h
    split at h
    · cases h
    · split at h
      · cases h
      · dsimp only at h
        split at h <;> cases h
        rfl
  | set path value reading raw input? output? layout =>
    obtain ⟨_, _, _, _, -, -, -, -, -, htarget⟩ := exists_of_set_respond h
    exact htarget
  | parse path reading =>
    rw [respond] at h
    split at h <;> cases h
    rfl

/-- **What a run comes to**: it fails, or it shows what the command has made, or it writes that into
a file. -/
theorem run_cases {command : Command} {left : Outcome}
    (h : command.run stdin files filter = left) :
    (left.code = 1 ∧ left.stdout = "" ∧ left.files = files) ∨
      left.code = 0 ∧ ∃ response,
        (command.respond (command.source.content stdin files)).1 = .ok response ∧
        ((command.output? = none ∧ left.stdout = response.text ∧ left.files = files) ∨
          ∃ name, command.output? = some name ∧ left.stdout = "" ∧
            files.write name response.text = .ok left.files) := by
  subst h
  unfold run
  dsimp only
  cases hrespond : (command.respond (command.source.content stdin files)).1 with
  | error report => exact .inl ⟨rfl, rfl, rfl⟩
  | ok response =>
    have houtput := target?_of_respond hrespond
    dsimp only
    cases htarget : response.target? with
    | none => exact .inr ⟨rfl, response, rfl, .inl ⟨houtput.symm.trans htarget, rfl, rfl⟩⟩
    | some name =>
      dsimp only
      cases hwrite : files.write name response.text with
      | error fault => exact .inl ⟨rfl, rfl, rfl⟩
      | ok files' =>
        exact .inr ⟨rfl, response, rfl, .inr ⟨name, houtput.symm.trans htarget, rfl, hwrite⟩⟩

/-- **What a set command that exits with zero comes to**: it has read a path and a document, has
assigned the value, and shows or writes the document after that. -/
theorem set_run_cases {output? : Option String} {left : Outcome}
    (h : (set path value reading raw input? output? layout).run stdin files filter = left)
    (hcode : left.code = 0) :
    ∃ (p : Path) (text : String) (d e : Document), Path.read reading path = .ok p ∧
      (set path value reading raw input? output? layout).source.content stdin files = .ok text ∧
      Document.ofText? text = .ok d ∧ d.setAt (.ofPath p) (valueOf value raw).1 = (e, none) ∧
      ((output? = none ∧ left.stdout = Document.text layout e ++ "\n" ∧ left.files = files) ∨
        ∃ name, output? = some name ∧ left.stdout = "" ∧
          files.write name (Document.text layout e ++ "\n") = .ok left.files) := by
  rcases run_cases h with ⟨hfailed, -, -⟩ | ⟨-, response, hrespond, hleft⟩
  · rw [hfailed] at hcode
    cases hcode
  · obtain ⟨p, text, d, e, hp, htext, hd, hset, hresponse, -⟩ := exists_of_set_respond hrespond
    rw [hresponse] at hleft
    exact ⟨p, text, d, e, hp, htext, hd, hset, hleft⟩

/-- A set command for the standard output that exits with zero shows the document. -/
theorem exists_of_set_run {shown : Outcome}
    (h : (set path value reading raw input? none layout).run stdin files filter = shown)
    (hcode : shown.code = 0) :
    ∃ (p : Path) (text : String) (d e : Document), Path.read reading path = .ok p ∧
      (set path value reading raw input? none layout).source.content stdin files = .ok text ∧
      Document.ofText? text = .ok d ∧ d.setAt (.ofPath p) (valueOf value raw).1 = (e, none) ∧
      shown.stdout = Document.text layout e ++ "\n" := by
  obtain ⟨p, text, d, e, hp, htext, hd, hset, hshown⟩ := set_run_cases h hcode
  rcases hshown with ⟨-, hstdout, -⟩ | ⟨name, houtput, -, -⟩
  · exact ⟨p, text, d, e, hp, htext, hd, hset, hstdout⟩
  · cases houtput

/-- The document after an assignment is well formed. -/
theorem wellFormed_of_set {text : String} {w : Document} (hd : Document.ofText? text = .ok d)
    (hw : Means value raw w) (hset : d.setAt (.ofPath p) w = (e, none)) : e.WellFormed := by
  have hafter := (Document.wellFormed_of_ofText? hd).setAt hw.wellFormed (.ofPath p)
  rwa [hset] at hafter

/-- A get command that finds a node shows it and exits with zero. -/
theorem get_run {found : Document} (hp : Path.read reading path = .ok p)
    (hd : readDocument .standardInput stdin = .ok d) (hget : d.getAt (.ofPath p) = .ok found) :
    ((get path reading none layout).run stdin files filter).code = 0 ∧
      ((get path reading none layout).run stdin files filter).stdout =
        Document.text layout found ++ "\n" := by
  have hrespond : ((get path reading none layout).respond stdin).1 =
      .ok ⟨none, Document.text layout found ++ "\n"⟩ := by
    have hd : readDocument (get path reading none layout).source stdin = .ok d := hd
    rw [respond, readPath_eq_ok_iff.2 hp]
    simp only [hd, hget]
  have hcontent : (get path reading none layout).source.content stdin files = stdin := rfl
  simp only [run, hcontent, hrespond, and_self]

end Command

/-! ## 3. What is accepted -/

/-- **What is written is accepted if and only if it nests at most 127 levels.**  That is so of the
text of whatever a run of assignments makes of a document that was read, in both layouts, where the
values were read too; and so it is of whatever the set command shows when it exits with zero. -/
theorem written_accepted_iff :
    (∀ (text : String) (d : Document) (writes : List (Address × Document)),
      Document.ofText? text = .ok d →
      (∀ write ∈ writes, ∃ word, Document.ofText? word = .ok write.2) →
      ∀ layout, (∃ e, Document.ofText? (Document.text layout (d.setAll writes)) = .ok e) ↔
        (d.setAll writes).depth ≤ 127) ∧
    ∀ (path value : String) (reading : Reading) (raw : Bool) (input? : Option String)
      (layout : Json.Layout) (stdin : Content) (files : Files) (filter : LogFilter)
      (shown : Outcome),
      (Command.set path value reading raw input? none layout).run stdin files filter = shown →
      shown.code = 0 →
      ∃ (p : Path) (text : String) (d w e : Document), Path.read reading path = .ok p ∧
        (Command.set path value reading raw input? none layout).source.content stdin files =
          .ok text ∧
        Document.ofText? text = .ok d ∧ Means value raw w ∧ d.setAt (.ofPath p) w = (e, none) ∧
        shown.stdout = Document.text layout e ++ "\n" ∧
        ∀ source, (∃ e', readDocument source (.ok shown.stdout) = .ok e') ↔ e.depth ≤ 127 := by
  constructor
  · intro text d writes hd hwrites layout
    have hw : (d.setAll writes).WellFormed := by
      refine (Document.wellFormed_of_ofText? hd).setAll ?_
      intro write hwrite
      obtain ⟨word, hword⟩ := hwrites write hwrite
      exact Document.wellFormed_of_ofText? hword
    rw [← Document.exists_ofText?_text_iff hw layout "" (by simp), String.append_empty]
  · intro path value reading raw input? layout stdin files filter shown h hcode
    obtain ⟨p, text, d, e, hp, htext, hd, hset, hstdout⟩ := Command.exists_of_set_run h hcode
    have hmeans := means_valueOf value raw
    refine ⟨p, text, d, _, e, hp, htext, hd, hmeans, hset, hstdout, ?_⟩
    intro source
    rw [hstdout]
    exact exists_readDocument_iff (Command.wellFormed_of_set hd hmeans hset) source layout

namespace Example

/-- The path of 128 segments, all of them the name `a`. -/
def deep : Address := .ofPath (List.replicate 128 (.key "a"))

/-- One name more than the reader goes deep: the assignment succeeds, and what is written for the
document after it is refused in both layouts. -/
theorem refused_after_deep_assignment :
    Document.ofText? "{}" = .ok (.object []) ∧ Document.ofText? "null" = .ok .null ∧
      ((Tree.object [] : Document).setAt deep .null).2 = none ∧
      (¬ ∃ e, Document.ofText?
        (Document.text .compact ((Tree.object [] : Document).setAll [(deep, .null)])) = .ok e) ∧
      ¬ ∃ e, Document.ofText?
        (Document.text .indented ((Tree.object [] : Document).setAll [(deep, .null)])) = .ok e := by
  have hempty : (Tree.object [] : Document).WellFormed := .object (by decide) fun _ h => nomatch h
  have hw : ((Tree.object [] : Document).setAll [(deep, .null)]).WellFormed :=
    hempty.setAll (List.forall_mem_singleton.2 .null)
  have hdepth : 127 < ((Tree.object [] : Document).setAll [(deep, .null)]).depth := by
    decide +kernel
  have hrefused (layout : Json.Layout) : ¬ ∃ e, Document.ofText?
      (Document.text layout ((Tree.object [] : Document).setAll [(deep, .null)])) = .ok e := by
    rintro ⟨e, he⟩
    obtain ⟨fault, hfault, -⟩ := Document.ofText?_text_of_lt hw hdepth layout ""
    rw [String.append_empty] at hfault
    cases he.symm.trans hfault
  exact ⟨by decide +kernel, by decide +kernel, by decide +kernel, hrefused .compact,
    hrefused .indented⟩

/-- `{"n":-1}` -/
def stored : String := "\x7b\"n\":-1\x7d"

def minusOne : Finite := ⟨true, unitsPerOne, by decide +kernel⟩

def storedDocument : Document := .object [("n", .number (.finite minusOne))]

/-- A set command that makes an object for a raw value. -/
def setRaw : Outcome :=
  (Command.set "a.b" "null" .strict true none none .indented).run (.ok stored) [] []

theorem accepted_at_limit :
    (∃ e, Document.ofText? (Document.text .indented
      ((Tree.object [] : Document).setAll [(.ofPath (List.replicate 127 (.key "a")), .null)])) =
        .ok e) ∧
      setRaw.code = 0 ∧ ∃ e, readDocument .standardInput (.ok setRaw.stdout) = .ok e := by
  have hcode : setRaw.code = 0 := by decide +kernel
  refine ⟨?_, hcode, ?_⟩
  · have hempty : Document.ofText? "\x7b\x7d" = .ok (.object []) := by decide +kernel
    have hnull : ∃ word, Document.ofText? word = .ok .null := ⟨"null", by decide +kernel⟩
    exact (written_accepted_iff.1 _ _ _ hempty (List.forall_mem_singleton.2 hnull) .indented).2
      (by decide +kernel)
  · obtain ⟨p, text, d, w, e, hp, htext, hd, hmeans, hset, -, haccepted⟩ :=
      written_accepted_iff.2 "a.b" "null" .strict true none .indented (.ok stored) [] []
        setRaw rfl hcode
    refine (haccepted .standardInput).2 ?_
    have hpath : Path.read .strict "a.b" = .ok [.key "a", .key "b"] := by decide +kernel
    have hstored : Document.ofText? stored = .ok storedDocument := by decide +kernel
    cases hp.symm.trans hpath
    cases htext
    cases hd.symm.trans hstored
    cases hmeans
    have he : (storedDocument.setAt (.ofPath [.key "a", .key "b"]) (.string "null")).1 = e :=
      congrArg Prod.fst hset
    rw [← he]
    decide +kernel

end Example

/-! ## 4. What is shown -/

/-- **The get command shows what the set command has put there.**  Where the set command exits with
zero, its path is read, and if the document after the assignment nests at most 127 levels and holds
no numbers but integers that 64 bits hold, then the get command with the same path finds the value
in it, exits with zero, and shows the text of the value and a line feed. -/
theorem get_run_of_set_run {text : String} {shown : Outcome} (hd : Document.ofText? text = .ok d)
    (h : (Command.set path value reading raw none none layout).run (.ok text) files filter = shown)
    (hcode : shown.code = 0) (files' : Files) (filter' : LogFilter) :
    ∃ p w, Path.read reading path = .ok p ∧ Means value raw w ∧
      ((d.setAt (.ofPath p) w).1.depth ≤ 127 →
        (∀ x ∈ (d.setAt (.ofPath p) w).1.numbers,
          ∃ y n, x = .finite y ∧ y.IsInteger n ∧ -2 ^ 63 ≤ n ∧ n < 2 ^ 63) →
        ((Command.get path reading none .compact).run (.ok shown.stdout) files' filter').code = 0 ∧
          ((Command.get path reading none .compact).run (.ok shown.stdout) files' filter').stdout =
            Document.text .compact w ++ "\n") := by
  obtain ⟨p, text', d', e, hp, htext, hd', hset, hstdout⟩ := Command.exists_of_set_run h hcode
  cases htext
  cases hd.symm.trans hd'
  have hmeans := means_valueOf value raw
  refine ⟨p, _, hp, hmeans, ?_⟩
  rw [hset]
  intro hdepth hn
  have he : e.WellFormed := Command.wellFormed_of_set hd hmeans hset
  have hread : readDocument .standardInput (.ok shown.stdout) = .ok e := by
    refine readDocument_eq_ok_iff.2 ⟨_, rfl, ?_⟩
    rw [hstdout, Document.ofText?_text_append he hdepth layout "\n" isBlank_of_mem_lineFeed,
      Document.reread_of_isInteger hn]
  have hget : e.getAt (.ofPath p) = .ok (valueOf value raw).1 := by
    have hgraft := Tree.graft_of_setAt hset
    have hfound := Tree.get_graft_append (congrArg Assignment.fault? hgraft) []
    rw [hgraft, List.append_nil] at hfound
    rw [Tree.getAt, hfound]
    rfl
  exact Command.get_run hp hread hget

namespace Example

/-- A set command with a word that is no JSON text. -/
def setWord : Outcome :=
  (Command.set "a.b" "no json" .strict false none none .indented).run (.ok stored) [] []

theorem found_after_set :
    Document.ofText? stored = .ok storedDocument ∧ setWord.code = 0 ∧
      ((Command.get "a.b" .strict none .compact).run (.ok setWord.stdout) [] []).code = 0 ∧
      ((Command.get "a.b" .strict none .compact).run (.ok setWord.stdout) [] []).stdout =
        "\"no json\"\n" := by
  have hstored : Document.ofText? stored = .ok storedDocument := by decide +kernel
  have hcode : setWord.code = 0 := by decide +kernel
  refine ⟨hstored, hcode, ?_⟩
  obtain ⟨p, w, hp, hmeans, hfound⟩ := get_run_of_set_run hstored rfl hcode [] []
  have hpath : Path.read .strict "a.b" = .ok [.key "a", .key "b"] := by decide +kernel
  have hword : (Document.ofText? "no json").toOption = none := by decide +kernel
  cases hp.symm.trans hpath
  cases hmeans with
  | document hread =>
    rw [hread] at hword
    cases hword
  | other _ =>
    refine hfound (by decide +kernel) ?_
    have hnumbers : (storedDocument.setAt (.ofPath [.key "a", .key "b"])
        (.string "no json")).1.numbers = [.finite minusOne] := by decide +kernel
    rw [hnumbers]
    have hinteger : minusOne.IsInteger (-1) := ⟨by decide +kernel, by decide⟩
    exact List.forall_mem_singleton.2 ⟨minusOne, -1, rfl, hinteger, by decide, by decide⟩

end Example

end DocPath.Cli
