import TreeWalk.Proofs.Evaluation.Relocation
import TreeWalk.Proofs.Grammar.Locality
import TreeWalk.Proofs.Session.Stages
import TreeWalk.Proofs.Token.Seam

/-!
# Running a program at once or in pieces

Two programs with a line break between them are read as the nodes of the first and, further
down, those of the second. A session runs them as it would run the one after the other.
-/

namespace TreeWalk

namespace Grammar

variable {first second : String}

/-- Two programs with a line break between them are read one after the other. -/
theorem parse_append_lineBreak (firstReads : (parse .statement first).errors = [])
    (secondReads : (parse .statement second).errors = []) :
    parse .statement (first ++ "\n" ++ second) =
      ⟨(parse .statement first).produced ++ (parse .statement second).produced.map (Node.relocate
          (Span.shift (first.toList.count '\n' + 1) (first.utf8ByteSize + 1))), []⟩ := by
  obtain ⟨firstScans, firstClean, firstNodes⟩ := parse_of_clean firstReads
  obtain ⟨secondScans, secondClean, secondNodes⟩ := parse_of_clean secondReads
  have closed : ∀ content span, .unterminatedString content span ∉ (scan first).errors := by
    simp [firstScans]
  have scanned := scan_append_lineBreak second closed
  have moved := program_relocate
    (Span.after_shift (first.toList.count '\n' + 1) (first.utf8ByteSize + 1)) .statement
    (scan second).produced
  have movedClean := congrArg Outcome.errors moved
  rw [secondClean, List.map_nil] at movedClean
  rw [parse, scanned, firstScans, secondScans, firstNodes, secondNodes]
  simp only [List.map_nil, List.append_nil, List.isEmpty_nil, if_true]
  rw [program_append firstClean movedClean, moved]
  rfl

/-- A carriage return behind a source changes nothing, if the source is read without errors. -/
theorem parse_append_return {mode : Mode} {source : String}
    (clean : (parse mode source).errors = []) :
    parse mode (source ++ "\r") = parse mode source := by
  have scans := (parse_of_clean clean).1
  rw [parse, parse, scan_append_return (by simp [scans])]

end Grammar

namespace Node

/-- The number of nodes that complete in a run. -/
def completed : List Node → Scopes → Nat
  | [], _ => 0
  | node :: nodes, scopes =>
      match node.eval scopes with
      | ⟨.ok _, middle, _⟩ => completed nodes middle + 1
      | ⟨.error _, _, _⟩ => 0

variable {first : List Node} {scopes : Scopes} {error : RuntimeError}

/-- Without an error every node of a run completes. -/
theorem completed_of_done {last : Option Value} {nodes : List Node} {scopes : Scopes}
    (done : (run last nodes scopes).error = none) : completed nodes scopes = nodes.length := by
  induction nodes generalizing last scopes with
  | nil => rfl
  | cons node nodes inductionHypothesis =>
      rw [run] at done
      rw [completed, List.length_cons]
      generalize node.eval scopes = effect at done ⊢
      obtain ⟨error | value, middle, printed⟩ := effect
      · cases done
      · dsimp only at done ⊢
        rw [inductionHypothesis done]

/-- The value that a run starts with is its value as long as no node completes. -/
theorem run_of_last (last : Option Value) (nodes : List Node) (scopes : Scopes) :
    run last nodes scopes =
      { run none nodes scopes with
        value := if 0 < completed nodes scopes then (run none nodes scopes).value else last } := by
  cases nodes with
  | nil => rfl
  | cons node nodes =>
      rw [run, run, completed]
      rcases node.eval scopes with ⟨error | value, middle, printed⟩ <;> rfl

/-- Behind an error nothing is run. -/
theorem run_append_of_error {last : Option Value} (second : List Node)
    (failed : (run last first scopes).error = some error) :
    run last (first ++ second) scopes = run last first scopes := by
  induction first generalizing last scopes with
  | nil => cases failed
  | cons node nodes inductionHypothesis =>
      rw [run] at failed
      rw [List.cons_append, run, run]
      generalize node.eval scopes = effect at failed ⊢
      obtain ⟨error | value, middle, printed⟩ := effect
      · rfl
      · dsimp only at failed ⊢
        rw [inductionHypothesis failed]

/-- Without an error the run goes on with the nodes behind. -/
theorem run_append_of_done {last : Option Value} (second : List Node)
    (done : (run last first scopes).error = none) :
    run last (first ++ second) scopes =
      { run (run last first scopes).value second (run last first scopes).scopes with
        printed := (run last first scopes).printed ++
          (run (run last first scopes).value second (run last first scopes).scopes).printed } := by
  induction first generalizing last scopes with
  | nil => rfl
  | cons node nodes inductionHypothesis =>
      rw [run] at done ⊢
      rw [List.cons_append, run]
      generalize node.eval scopes = effect at done ⊢
      obtain ⟨error | value, middle, printed⟩ := effect
      · cases done
      · dsimp only at done ⊢
        rw [inductionHypothesis done]
        simp

/-- As many moved nodes complete. -/
theorem completed_relocate (move : Span → Span) (nodes : List Node) (scopes : Scopes) :
    completed (nodes.map (Node.relocate move)) scopes = completed nodes scopes := by
  induction nodes generalizing scopes with
  | nil => rfl
  | cons node nodes inductionHypothesis =>
      rw [List.map_cons, completed, completed, Node.eval_relocate, Action.relocate, Effect.relocate]
      rcases node.eval scopes with ⟨error | value, middle, printed⟩
      · rfl
      · dsimp only [Except.mapError]
        rw [inductionHypothesis]

end Node

namespace Session

variable {session : Session} {first : List Node}

/-- Executing nodes and others behind them does only what the first ones do, if they fail. -/
theorem execute_append_of_error (second : List Node)
    (failed : (session.execute first).1.errors ≠ []) :
    session.execute (first ++ second) = session.execute first := by
  obtain ⟨error, stopped⟩ : ∃ error, (Node.run none first session.scopes).error = some error := by
    simpa [execute, Option.ne_none_iff_exists'] using failed
  rw [execute, Node.run_append_of_error second stopped]
  rfl

/-- Executing nodes and others behind them, if the first ones do not fail, does what executing
the one after the other does. The value is the earlier one if no node behind completes. -/
theorem execute_append_of_done (second : List Node)
    (done : (session.execute first).1.errors = []) :
    session.execute (first ++ second) =
      ({ ((session.execute first).2.execute second).1 with
          value :=
            if 0 < Node.completed second (session.execute first).2.scopes then
              ((session.execute first).2.execute second).1.value
            else (session.execute first).1.value
          printed :=
            (session.execute first).1.printed ++
              ((session.execute first).2.execute second).1.printed },
        ((session.execute first).2.execute second).2) := by
  have finished : (Node.run none first session.scopes).error = none := by
    simpa [execute] using done
  rw [execute, Node.run_append_of_done second finished, Node.run_of_last]
  simp [execute]

/-- Nodes that are executed without an error all complete. -/
theorem completed_of_execute {nodes : List Node} (clean : (session.execute nodes).1.errors = []) :
    Node.completed nodes session.scopes = nodes.length := by
  have done : (Node.run none nodes session.scopes).error = none := by simpa [execute] using clean
  exact Node.completed_of_done done

/-- Executing moved nodes moves the error and does nothing else. -/
theorem execute_relocate (session : Session) (move : Span → Span) (nodes : List Node) :
    session.execute (nodes.map (Node.relocate move)) =
      ({ (session.execute nodes).1 with
          errors := (session.execute nodes).1.errors.map (Error.relocate move) },
        (session.execute nodes).2) := by
  rw [execute, Node.run_relocate]
  cases stopped : (Node.run none nodes session.scopes).error <;>
    simp [execute, Run.relocate, stopped, Error.relocate]

end Session

/-- A program runs at once as it does in pieces. If two sources are read without errors, the
first, a line break and the second together are read as the nodes of both, and evaluating
them does what evaluating the one after the other does: all that the first one does, if it
fails at run time, and otherwise what both do, with the second one's value, if any of its
nodes completes, and with its error further down. -/
theorem evaluate_in_pieces {session : Session} (statements : session.mode = .statement)
    {first second : String} (firstReads : (Grammar.parse .statement first).errors = [])
    (secondReads : (Grammar.parse .statement second).errors = []) :
    let whole := first ++ "\n" ++ second
    let move := Span.shift (first.toList.count '\n' + 1) (first.utf8ByteSize + 1)
    let one := session.evaluate first
    let two := one.2.evaluate second
    Grammar.parse .statement whole =
      ⟨(Grammar.parse .statement first).produced ++
        (Grammar.parse .statement second).produced.map (Node.relocate move), []⟩ ∧
    (one.1.errors ≠ [] → session.evaluate whole = one) ∧
    (one.1.errors = [] →
      session.evaluate whole =
        ({ value := if 0 < Node.completed (Grammar.parse .statement second).produced one.2.scopes
              then two.1.value else one.1.value
           errors := two.1.errors.map (Error.relocate move)
           printed := one.1.printed ++ two.1.printed }, two.2)) := by
  intro whole move one two
  have reads := Grammar.parse_append_lineBreak firstReads secondReads
  refine ⟨reads, ?_⟩
  obtain ⟨mode, scopes, printed⟩ := session
  cases statements
  have oneRuns : one = Session.execute ⟨.statement, scopes, printed⟩ _ :=
    Session.evaluate_of_clean firstReads
  have twoRuns : two = one.2.execute (Grammar.parse .statement second).produced := by
    -- The second source is read in the mode that the first one leaves.
    have mode : one.2.mode = .statement := by rw [oneRuns]; rfl
    rw [← mode] at secondReads ⊢
    exact Session.evaluate_of_clean secondReads
  have wholeRuns : Session.evaluate ⟨.statement, scopes, printed⟩ whole =
      Session.execute ⟨.statement, scopes, printed⟩ _ :=
    Session.evaluate_of_clean (by rw [reads])
  rw [reads] at wholeRuns
  rw [wholeRuns, twoRuns, oneRuns]
  constructor
  · exact fun failed => Session.execute_append_of_error _ failed
  · intro done
    rw [Session.execute_append_of_done _ done, Session.execute_relocate, Node.completed_relocate]

/-- A comment with a quote in front of the line break, and behind it a negation that fails. -/
theorem evaluate_in_pieces_negation :
    (Session.evaluate { mode := .statement } ("print \"é\"; // \"" ++ "\n" ++ "-nil;")).1.errors =
      [.runtime (.typeMismatch (.unary .negate) .number ⟨2, 17, 1⟩)] := by
  have one : (Session.evaluate { mode := .statement } "print \"é\"; // \"").1.errors = [] := by
    decide +kernel
  have both := (@evaluate_in_pieces { mode := .statement } rfl _ _
    (by decide +kernel : (Grammar.parse .statement "print \"é\"; // \"").errors = [])
    (by decide +kernel : (Grammar.parse .statement "-nil;").errors = [])).2.2 one
  rw [both]
  decide +kernel

end TreeWalk
