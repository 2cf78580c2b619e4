import TreeWalk.Session

/-!
# The stages of a call

A text is scanned, then read, then run, and each stage begins only if those before it met no
error. So the errors of a call are all of one stage, and a text with static errors does nothing.
-/

namespace TreeWalk

namespace Grammar

variable {source : String}

/-- A source with lexical errors is not read. -/
theorem parse_of_lexical (mode : Mode) (met : (scan source).errors ≠ []) :
    parse mode source = ⟨[], (scan source).errors.map .lexical⟩ := by
  have some : (scan source).errors.isEmpty = false := List.isEmpty_eq_false_iff.2 met
  rw [parse, some]
  rfl

/-- A source without lexical errors is read as its tokens are. -/
theorem parse_of_scanned (mode : Mode) (scans : (scan source).errors = []) :
    parse mode source =
      ⟨(program mode (scan source).produced).produced,
        (program mode (scan source).produced).errors.map .syntactic⟩ := by
  rw [parse, scans]
  rfl

/-- Nothing is read from an empty source. -/
theorem parse_empty (mode : Mode) : parse mode "" = ⟨[], []⟩ := by
  have scans : (scan "").errors = [] := by decide +kernel
  have tokens : (scan "").produced = [] := by decide +kernel
  rw [parse_of_scanned mode scans, tokens, program, nodes]
  rfl

end Grammar

/-- Where a call ends: at a static stage, in a run that fails, or behind one that does not. -/
inductive Ending where
  | lexical | syntactic | runtime | finished
deriving DecidableEq, Repr

namespace Session

variable {session : Session} {source : String}

/-- The call on the source ends there, with the errors of that stage and no others. -/
def Ends (session : Session) (source : String) (ending : Ending) : Prop :=
  let scanned := scan source
  let read := Grammar.program session.mode scanned.produced
  let run := Node.run none read.produced session.scopes
  let errors := (session.evaluate source).1.errors
  match ending with
  | .lexical => scanned.errors ≠ [] ∧ errors = scanned.errors.map .lexical
  | .syntactic =>
      scanned.errors = [] ∧ read.errors ≠ [] ∧ errors = read.errors.map .syntactic
  | .runtime =>
      scanned.errors = [] ∧ read.errors = [] ∧
        ∃ error, run.error = some error ∧ errors = [.runtime error]
  | .finished => scanned.errors = [] ∧ read.errors = [] ∧ run.error = none ∧ errors = []

/-- A session runs the nodes of a source that is read without errors. -/
theorem evaluate_of_clean (clean : (Grammar.parse session.mode source).errors = []) :
    session.evaluate source = session.execute (Grammar.parse session.mode source).produced := by
  rw [evaluate, clean]
  rfl

/-- A text with static errors is not run. -/
theorem evaluate_of_rejected (rejected : (Grammar.parse session.mode source).errors ≠ []) :
    session.evaluate source =
      (⟨none, (Grammar.parse session.mode source).errors, []⟩, session) := by
  have some := List.isEmpty_eq_false_iff.2 rejected
  rw [evaluate]
  simp only [some]
  rfl

/-- A text with lexical errors is not run. -/
theorem evaluate_of_lexical (met : (scan source).errors ≠ []) :
    session.evaluate source = (⟨none, (scan source).errors.map .lexical, []⟩, session) := by
  have read := Grammar.parse_of_lexical session.mode met
  rw [evaluate_of_rejected (by simpa only [read, ne_eq, List.map_eq_nil_iff] using met), read]

/-- A text with syntax errors is not run. -/
theorem evaluate_of_syntactic (scans : (scan source).errors = [])
    (met : (Grammar.program session.mode (scan source).produced).errors ≠ []) :
    session.evaluate source =
      (⟨none, (Grammar.program session.mode (scan source).produced).errors.map .syntactic, []⟩,
        session) := by
  have read := Grammar.parse_of_scanned session.mode scans
  rw [evaluate_of_rejected (by simpa only [read, ne_eq, List.map_eq_nil_iff] using met), read]

/-- An evaluation leaves the mode of the session as it is. -/
theorem mode_evaluate (session : Session) (source : String) :
    (session.evaluate source).2.mode = session.mode := by
  rw [evaluate]
  split <;> rfl

/-- A call without errors was on a source that is read without errors. -/
theorem parse_of_evaluate (statements : session.mode = .statement)
    (clean : (session.evaluate source).1.errors = []) :
    (Grammar.parse .statement source).errors = [] := by
  rw [← statements]
  by_cases reads : (Grammar.parse session.mode source).errors = []
  case pos => exact reads
  case neg =>
    rw [evaluate_of_rejected reads] at clean
    exact clean

/-- A session runs the statements that it reads without errors. -/
theorem evaluate_of_statements (statements : session.mode = .statement)
    (clean : (Grammar.parse .statement source).errors = []) :
    session.evaluate source = session.execute (Grammar.parse .statement source).produced := by
  rw [← statements] at clean ⊢
  exact evaluate_of_clean clean

/-- A text without static errors is run. -/
theorem evaluate_of_read (scans : (scan source).errors = [])
    (reads : (Grammar.program session.mode (scan source).produced).errors = []) :
    session.evaluate source =
      session.execute (Grammar.program session.mode (scan source).produced).produced := by
  have read := Grammar.parse_of_scanned session.mode scans
  rw [evaluate_of_clean (by rw [read, reads, List.map_nil]), read]

/-- Every call ends somewhere. -/
theorem exists_ends (session : Session) (source : String) :
    ∃ ending, session.Ends source ending := by
  by_cases scans : (scan source).errors = []
  case neg => exact ⟨.lexical, scans, by rw [evaluate_of_lexical scans]⟩
  by_cases reads : (Grammar.program session.mode (scan source).produced).errors = []
  case neg => exact ⟨.syntactic, scans, reads, by rw [evaluate_of_syntactic scans reads]⟩
  have ran := evaluate_of_read scans reads
  cases stopped : (Node.run none (Grammar.program session.mode (scan source).produced).produced
      session.scopes).error with
  | none => exact ⟨.finished, scans, reads, stopped, by rw [ran, execute, stopped]; rfl⟩
  | some error =>
      exact ⟨.runtime, scans, reads, error, stopped, by rw [ran, execute, stopped]; rfl⟩

/-- A call ends in one place only. -/
theorem Ends.unique {first second : Ending} (ends : session.Ends source first)
    (others : session.Ends source second) : first = second := by
  cases first <;> cases second <;> simp_all [Ends]

end Session

end TreeWalk
