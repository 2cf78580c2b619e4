import TreeWalk.Proofs.Grammar.Ambiguity
import TreeWalk.Session

/-!
# Expressions in both modes

The end of the tokens stops an expression where a semicolon does, and no expression begins as
another statement does. So what is one expression in expression mode is, with a semicolon behind
it, the statement of that expression in statement mode, and both do the same when they run.
-/

namespace TreeWalk

namespace Grammar

variable {tokens : List Token} {value : Expr}

/-- Tokens are read as one bare expression exactly if it is well-shaped and they are all of it. -/
theorem program_eq_expression_iff :
    program .expression tokens = ⟨[.expression value], []⟩ ↔
      value.WellShaped ∧ value.Written tokens := by
  constructor
  · intro read
    have stretches : Stretches .expression (endingOf tokens) tokens
        (program .expression tokens).produced (program .expression tokens).errors :=
      stretches_nodes .expression (endingOf tokens) tokens
    rw [read] at stretches
    obtain ⟨⟨_, same, shaped⟩, _⟩ := stretches.wellShapedIn List.mem_cons_self
    cases same
    cases stretches.allWritten with
    | cons first behind =>
        cases first with
        | expression bare =>
            cases behind
            rw [List.append_nil]
            exact ⟨shaped, bare⟩
  · rintro ⟨shaped, written⟩
    have single : Node.AllWritten ([value].map .expression) (tokens ++ []) :=
      .cons (.expression written) .nil
    rw [List.append_nil] at single
    exact nodes_of_allWritten_expressions (by simpa using shaped) (by simp) single

/-- Tokens with a semicolon behind them are read as the statement of an expression exactly if the
expression is well-shaped and they are all of it. -/
theorem program_eq_expressionStatement_iff {finish : Span} :
    program .statement (tokens ++ [⟨.punctuator .semicolon, finish⟩]) =
        ⟨[.expressionStatement value value.span], []⟩ ↔
      value.WellShaped ∧ value.Written tokens := by
  constructor
  · intro read
    obtain ⟨written, shaped⟩ := written_of_program (by rw [read])
    rw [read] at written shaped
    refine ⟨shaped.1.1, ?_⟩
    generalize whole : tokens ++ [_] = all at written
    cases written with
    | cons first behind =>
        cases first with
        | expressionStatement _ stated =>
            cases behind
            rw [List.append_nil] at whole
            rw [(List.append_inj' whole rfl).1]
            exact stated
  · rintro ⟨shaped, written⟩
    have single := Node.AllWritten.cons (.expressionStatement finish written) .nil
    rw [List.append_nil] at single
    exact nodes_of_allWritten ⟨⟨shaped, rfl⟩, trivial⟩ single

/-- The modes agree on expressions. Tokens are one expression and nothing else in expression mode
exactly if, with a semicolon behind them, they are its statement and nothing else in statement
mode, and both have the same effect on any scopes and in any session. -/
theorem modes_agree_on_expressions (tokens : List Token) (value : Expr) (finish : Span) :
    (program .expression tokens = ⟨[.expression value], []⟩ ↔
      program .statement (tokens ++ [⟨.punctuator .semicolon, finish⟩]) =
        ⟨[.expressionStatement value value.span], []⟩) ∧
    (∀ scopes, (Node.expression value).eval scopes =
      (Node.expressionStatement value value.span).eval scopes) ∧
    (∀ session : Session, session.execute [.expression value] =
      session.execute [.expressionStatement value value.span]) := by
  have sameEffect : (Node.expression value).eval =
      (Node.expressionStatement value value.span).eval := by
    rw [Node.eval, Node.eval]
  refine ⟨program_eq_expression_iff.trans program_eq_expressionStatement_iff.symm, ?_, ?_⟩
  · intro scopes
    rw [sameEffect]
  · intro session
    simp only [Session.execute, Node.run, sameEffect]

end Grammar

end TreeWalk
