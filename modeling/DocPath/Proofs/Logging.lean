import Mathlib.Data.List.Basic
import DocPath.Proofs.Commands

/-!
# Logs and reports

What a run logs is decided by its command, the text that the command reads and the log filter
(`run_eq`).  It is there whether the run fails or not, for a command tells of a look-up or an
assignment the same however it ends (`events_of_get`, `events_of_set`).  And the log is all that the
filter decides on: what is shown, what is written and how a run ends are the same under every filter
(`run_silent`).  Without `--verbose` nothing is logged, and giving it more often only adds to the
log (`logged_sublist`).
-/

namespace DocPath.Cli

variable {content : Content} {path value : String} {reading : Reading} {raw : Bool}
  {input? output? : Option String} {layout : Json.Layout} {p : Path} {d : Document} {m n : Nat}

/-! ## 1. What a command tells -/

namespace Command

/-- A get command that has read its path and its document tells what the look-up tells, whether it
finds a node or not. -/
theorem events_of_get (hp : Path.read reading path = .ok p)
    (hd : readDocument (get path reading input? layout).source content = .ok d) :
    ((get path reading input? layout).respond content).2 = (d.getFrom (.read reading path)).2 := by
  rw [respond, readPath_eq_ok_iff.2 hp]
  simp only [hd, Tree.getFrom, PathSource.address?, hp, PathSource.events]
  cases d.getAt (.ofPath p) <;> rfl

/-- A set command that has read its path and its document tells what was dropped from the path,
whether the value is taken as a string, and what the assignment tells, whether it succeeds or
not. -/
theorem events_of_set (hp : Path.read reading path = .ok p)
    (hd : readDocument (set path value reading raw input? output? layout).source content = .ok d) :
    ((set path value reading raw input? output? layout).respond content).2 =
      Path.readEvents reading path ++ (valueOf value raw).2 ++ d.setEvents p := by
  rw [respond, readPath_eq_ok_iff.2 hp]
  simp only [hd]
  split <;> rfl

/-! ## 2. What a run logs -/

/-- **The log of a run** is what the command tells and the filter admits, and nothing else that
comes of the run depends on the filter. -/
theorem run_eq (command : Command) (stdin : Content) (files : Files) (filter filter' : LogFilter) :
    command.run stdin files filter =
      { command.run stdin files filter' with
        logged :=
          (command.respond (command.source.content stdin files)).2.filter filter.admits } := by
  unfold run
  dsimp only
  split
  · rfl
  · split
    · rfl
    · split <;> rfl

theorem logged_run (command : Command) (stdin : Content) (files : Files) (filter : LogFilter) :
    (command.run stdin files filter).logged =
      (command.respond (command.source.content stdin files)).2.filter filter.admits :=
  congrArg Outcome.logged (run_eq command stdin files filter filter)

/-- A look-up that fails has told where it began, and of the step that failed. -/
example : ((get "a" .lenient none .compact).run (.ok "[]") [] (.ofVerbosity 2)).logged =
    [.getStarted [.key "a"], .getStep (.key "a") .array] := by decide +kernel

end Command

/-- A run without its log. -/
def Outcome.silent (left : Outcome) : Outcome := { left with logged := [] }

/-- **The environment decides on nothing but the log.** -/
theorem run_silent (args : List String) (stdin : Content) (files : Files)
    (environment? environment?' : Option String) :
    (run args stdin files environment?).silent = (run args stdin files environment?').silent := by
  unfold run
  split
  · rfl
  · rfl
  · next command verbosity _ =>
    rw [Command.run_eq command stdin files _ (.ofEnvironment environment?' verbosity)]
    rfl

/-- A run exits with one exactly if it says why. -/
theorem report?_isSome_iff (args : List String) (stdin : Content) (files : Files)
    (environment? : Option String) :
    (run args stdin files environment?).report?.isSome ↔
      (run args stdin files environment?).code = 1 := by
  unfold run
  split
  · simp
  · simp
  · unfold Command.run
    dsimp only
    split
    · simp
    · split
      · simp
      · split <;> simp

/-! ## 3. Verbosity -/

namespace LogFilter

/-- Where one directive is on all events, its level decides. -/
theorem admits_general (level? : Option Level) (e : Event) :
    admits [.general level?] e = level?.any fun finest => Level.admits finest e.level := by
  have hdeciding : deciding? [.general level?] e = some (.general level?) := rfl
  rw [admits, hdeciding]
  cases level? <;> rfl

/-- What is logged under some verbosity is logged under any greater one. -/
theorem admits_of_le (h : m ≤ n) {e : Event} (he : (ofVerbosity m).admits e = true) :
    (ofVerbosity n).admits e = true := by
  unfold ofVerbosity at he ⊢
  rw [admits_general] at he ⊢
  match m, n with
  | 0, _ => cases he
  | 1, 1 => exact he
  | 1, n + 2 => rfl
  | m + 2, n + 2 => rfl

end LogFilter

/-- Without `--verbose` nothing is logged, if the environment asks for nothing. -/
theorem logged_eq_nil (command : Command) (stdin : Content) (files : Files) :
    (command.run stdin files (.ofVerbosity 0)).logged = [] := by
  rw [Command.logged_run, List.filter_eq_nil_iff]
  intro e _ he
  unfold LogFilter.ofVerbosity at he
  rw [LogFilter.admits_general] at he
  cases he

/-- **More verbosity only adds to the log.** -/
theorem logged_sublist (h : m ≤ n) (command : Command) (stdin : Content) (files : Files) :
    (command.run stdin files (.ofVerbosity m)).logged.Sublist
      (command.run stdin files (.ofVerbosity n)).logged := by
  rw [Command.logged_run, Command.logged_run]
  exact List.monotone_filter_right _ fun e he => LogFilter.admits_of_le h he

end DocPath.Cli
