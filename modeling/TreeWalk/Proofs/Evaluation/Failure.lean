import TreeWalk.Proofs.Syntax.Parts
import TreeWalk.Session

/-!
# What stops an evaluation

Every error is raised by one part of the tree that is evaluated: a variable, an assignment, an
operator, a condition, or a construct that evaluation does not cover. All else passes on the errors
of its parts.
-/

namespace TreeWalk

/-- The construct that the node is, if evaluation does not cover it. -/
def Node.uncovered? : Node → Option Construct
  | .whileLoop _ _ _ => some .whileStatement
  | .forLoop _ _ _ _ _ => some .forStatement
  | .returned _ _ => some .returnStatement
  | .classDeclaration _ _ _ _ => some .classDeclaration
  | .functionDeclaration _ => some .functionDeclaration
  | _ => none

/-- The errors that an expression raises itself, not its operands. -/
inductive Expr.Raises : Expr → RuntimeError → Prop where
  | name {name : String} {span : Span} :
      Raises (.terminal ⟨.identifier name, span⟩) (.undefinedVariable name span)
  | terminal {token : Token} (other : ¬ token.kind.isTerminal) :
      Raises (.terminal token) (.notImplemented (.terminal token.kind) token.span)
  | unary {operator : UnaryOperator} {operand : Expr} {expected : Operands} {span : Span} :
      Raises (.unary operator operand span) (.typeMismatch (.unary operator) expected span)
  | binary {left right : Expr} {operator : BinaryOperator} {expected : Operands} {span : Span} :
      Raises (.binary left operator right span) (.typeMismatch (.binary operator) expected span)
  | assign {target : Identifier} {value : Expr} {span : Span} :
      Raises (.assign target value span) (.undefinedVariable target.name target.span)

/-- The errors that a node raises itself or in its expressions, not those of the nodes in it. -/
inductive Node.Raises (node : Node) : RuntimeError → Prop where
  | clause {clause part : Expr} {error : RuntimeError} (direct : clause ∈ node.clauses)
      (inside : Within Expr.operands part clause) (raised : part.Raises error) : Raises node error
  | condition {condition : Expr} {thenBranch : Node} {elseBranch : Option Node} {span : Span}
      (asks : node = .conditional condition thenBranch elseBranch span) :
      Raises node (.typeMismatch .condition .boolean span)
  | uncovered {construct : Construct} (uncovered : node.uncovered? = some construct) :
      Raises node (.notImplemented construct node.span)

namespace Action

variable {α β : Type} {allowed : RuntimeError → Prop}

/-- Whatever stops the action is an error of the allowed ones. -/
def FailsOnly (allowed : RuntimeError → Prop) (action : Action α) : Prop :=
  ∀ scopes error, (action scopes).result = .error error → allowed error

/-- Returning a value does not fail. -/
theorem failsOnly_pure (value : α) : FailsOnly allowed (pure value : Action α) := by
  intro scopes error failure
  cases failure

/-- A result fails with its own error only. -/
theorem failsOnly_ofExcept {result : Except RuntimeError α}
    (fails : ∀ error, result = .error error → allowed error) :
    FailsOnly allowed (ofExcept result) :=
  fun _ => fails

/-- Printing does not fail. -/
theorem failsOnly_print (line : String) : FailsOnly allowed (print line) := by
  intro scopes error failure
  cases failure

/-- A declaration does not fail. -/
theorem failsOnly_define (name : String) (value : Value) :
    FailsOnly allowed (define name value) := by
  intro scopes error failure
  cases failure

/-- An assignment fails only where its variable is undefined. -/
theorem failsOnly_assign {name : Identifier} (value : Value)
    (undefined : allowed (.undefinedVariable name.name name.span)) :
    FailsOnly allowed (assign name value) := by
  intro scopes error failure
  unfold assign at failure
  split at failure
  · cases failure
  · cases failure
    exact undefined

/-- A look-up fails only where its variable is undefined. -/
theorem failsOnly_lookup {name : String} {span : Span}
    (undefined : allowed (.undefinedVariable name span)) :
    FailsOnly allowed (lookup name span) := by
  intro scopes error failure
  unfold lookup at failure
  split at failure
  · cases failure
  · cases failure
    exact undefined

/-- A sequence is stopped by one of its parts. -/
theorem FailsOnly.bind {first : Action α} {next : α → Action β} (front : first.FailsOnly allowed)
    (behind : ∀ value, (next value).FailsOnly allowed) : (first >>= next).FailsOnly allowed := by
  intro scopes error failure
  cases outcome : (first scopes).result with
  | ok value =>
      rw [bind_of_ok outcome] at failure
      exact behind value _ error failure
  | error other =>
      rw [bind_of_error outcome] at failure
      cases failure
      exact front scopes _ outcome

/-- In a scope of its own an action fails with no further errors. -/
theorem FailsOnly.enclosed {action : Action α} (inside : action.FailsOnly allowed) :
    action.enclosed.FailsOnly allowed :=
  fun scopes => inside scopes.push

end Action

/-- A unary operator refuses its operand at its own token. -/
theorem Value.error_unary {operator : UnaryOperator} {value : Value} {span : Span}
    {error : RuntimeError} (failure : value.unary operator span = .error error) :
    ∃ expected, error = .typeMismatch (.unary operator) expected span := by
  unfold Value.unary at failure
  split at failure <;> cases failure
  exact ⟨_, rfl⟩

/-- A binary operator refuses its operands at its own token. -/
theorem Value.error_binary {operator : BinaryOperator} {left right : Value} {span : Span}
    {error : RuntimeError} (failure : Value.binary operator left right span = .error error) :
    ∃ expected, error = .typeMismatch (.binary operator) expected span := by
  cases operator <;> simp only [Value.binary] at failure
  case add =>
    unfold Value.add at failure
    split at failure <;> cases failure
    exact ⟨_, rfl⟩
  case sub | mul | div =>
    unfold Value.arithmetic at failure
    split at failure <;> cases failure
    exact ⟨_, rfl⟩
  case less | lessEqual | greater | greaterEqual =>
    unfold Value.relational at failure
    split at failure <;> cases failure
    exact ⟨_, rfl⟩
  case equal | notEqual => cases failure

section Origin

variable {allowed : RuntimeError → Prop}

/-- Whatever is raised in the expression, at any depth, is allowed. -/
def Expr.RaisesOnly (allowed : RuntimeError → Prop) (value : Expr) : Prop :=
  ∀ part, Within operands part value → ∀ error, part.Raises error → allowed error

/-- Whatever is raised in the node, at any depth, is allowed. -/
def Node.RaisesOnly (allowed : RuntimeError → Prop) (node : Node) : Prop :=
  ∀ part, Within children part node → ∀ error, part.Raises error → allowed error

/-- What is neither a literal nor a variable is no terminal. -/
theorem Kind.not_isTerminal {kind : Kind} (valueless : Value.ofKind? kind = none)
    (noName : ∀ name, kind = .identifier name → False) : ¬ kind.isTerminal := by
  cases kind with
  | identifier name => exact (noName name rfl).elim
  | number | string => cases valueless
  | keyword word => cases word <;> first | exact Bool.false_ne_true | cases valueless
  | punctuator | trivia => exact Bool.false_ne_true

/-- A literal never fails, and anything else fails by itself. -/
theorem Token.failsOnly_eval {token : Token}
    (raises : ∀ error, (Expr.terminal token).Raises error → allowed error) :
    token.eval.FailsOnly allowed := by
  obtain ⟨kind, span⟩ := token
  unfold Token.eval
  split
  next => exact Action.failsOnly_pure _
  next name _ same =>
    cases same
    exact Action.failsOnly_lookup (raises _ .name)
  next valueless noName =>
    refine Action.failsOnly_ofExcept fun error failure => ?_
    cases failure
    exact raises _ (.terminal (Kind.not_isTerminal valueless noName))

namespace Expr

variable {value part : Expr}

/-- The errors of operands are among those of the expression. -/
theorem RaisesOnly.operand (raises : value.RaisesOnly allowed) (direct : part ∈ value.operands) :
    part.RaisesOnly allowed :=
  fun inner inside => raises inner (.deeper direct inside)

/-- What stops an expression is raised in it. -/
theorem RaisesOnly.failsOnly_eval (raises : value.RaisesOnly allowed) :
    value.eval.FailsOnly allowed := by
  induction value with
  | terminal => exact Token.failsOnly_eval (raises _ .here)
  | group _ _ inside => exact inside (raises.operand List.mem_cons_self)
  | unary _ _ _ operand =>
      refine (operand (raises.operand List.mem_cons_self)).bind fun value => ?_
      refine Action.failsOnly_ofExcept fun error failure => ?_
      obtain ⟨expected, rfl⟩ := Value.error_unary failure
      exact raises _ .here _ .unary
  | binary _ _ _ _ left right =>
      refine (left (raises.operand (List.mem_pair.2 (.inl rfl)))).bind fun leftValue => ?_
      refine (right (raises.operand (List.mem_pair.2 (.inr rfl)))).bind fun rightValue => ?_
      refine Action.failsOnly_ofExcept fun error failure => ?_
      obtain ⟨expected, rfl⟩ := Value.error_binary failure
      exact raises _ .here _ .binary
  | logical _ _ _ _ left right =>
      refine (left (raises.operand (List.mem_pair.2 (.inl rfl)))).bind fun value => ?_
      split
      · exact Action.failsOnly_pure _
      · exact right (raises.operand (List.mem_pair.2 (.inr rfl)))
  | assign _ _ _ assigned =>
      refine (assigned (raises.operand List.mem_cons_self)).bind fun value => ?_
      exact (Action.failsOnly_assign value (raises _ .here _ .assign)).bind fun _ =>
        Action.failsOnly_pure _

/-- A condition may also be no boolean. -/
theorem RaisesOnly.failsOnly_evalCondition {span : Span} (raises : value.RaisesOnly allowed)
    (mismatch : allowed (.typeMismatch .condition .boolean span)) :
    (value.evalCondition span).FailsOnly allowed := by
  refine raises.failsOnly_eval.bind fun tested => ?_
  split
  · exact Action.failsOnly_pure _
  · refine Action.failsOnly_ofExcept fun error failure => ?_
    cases failure
    exact mismatch

end Expr

namespace Node

variable {node part : Node} {value : Expr}

/-- The errors of the nodes under a node are among those of the node. -/
theorem RaisesOnly.child (raises : node.RaisesOnly allowed) (direct : part ∈ node.children) :
    part.RaisesOnly allowed :=
  fun inner inside => raises inner (.deeper direct inside)

/-- The errors of the expressions in a node are among those of the node. -/
theorem RaisesOnly.clause (raises : node.RaisesOnly allowed) (direct : value ∈ node.clauses) :
    value.RaisesOnly allowed :=
  fun _ inside _ raised => raises node .here _ (.clause direct inside raised)

/-- All that a node does which evaluation does not cover is to fail where it stands. -/
theorem eval_of_uncovered {construct : Construct} (uncovered : node.uncovered? = some construct) :
    node.eval = .ofExcept (.error (.notImplemented construct node.span)) := by
  cases node <;> cases uncovered <;> rw [eval, span]

/-- A construct that is not covered fails with its own error only. -/
theorem RaisesOnly.failsOnly_uncovered {construct : Construct} (raises : node.RaisesOnly allowed)
    (uncovered : node.uncovered? = some construct) : node.eval.FailsOnly allowed := by
  rw [eval_of_uncovered uncovered]
  refine Action.failsOnly_ofExcept fun error failure => ?_
  cases failure
  exact raises _ .here _ (.uncovered uncovered)

mutual

/-- What stops a node is raised in it. -/
theorem failsOnly_eval : (node : Node) → node.RaisesOnly allowed → node.eval.FailsOnly allowed
  | .expression _, raises => by
      rw [eval]
      exact (raises.clause List.mem_cons_self).failsOnly_eval.bind fun _ =>
        Action.failsOnly_pure _
  | .expressionStatement _ _, raises => by
      rw [eval]
      exact (raises.clause List.mem_cons_self).failsOnly_eval.bind fun _ =>
        Action.failsOnly_pure _
  | .print _ _, raises => by
      rw [eval]
      exact (raises.clause List.mem_cons_self).failsOnly_eval.bind fun _ =>
        (Action.failsOnly_print _).bind fun _ => Action.failsOnly_pure _
  | .variableDeclaration _ none _, _ => by
      rw [eval]
      exact (Action.failsOnly_define _ _).bind fun _ => Action.failsOnly_pure _
  | .variableDeclaration _ (some _) _, raises => by
      rw [eval]
      exact (raises.clause List.mem_cons_self).failsOnly_eval.bind fun _ =>
        (Action.failsOnly_define _ _).bind fun _ => Action.failsOnly_pure _
  | .block body _, raises => by
      rw [eval]
      exact (failsOnly_evalSequence none body fun _ direct => raises.child direct).enclosed
  | .conditional _ thenBranch none _, raises => by
      have asked := raises.clause List.mem_cons_self
      rw [eval]
      refine (asked.failsOnly_evalCondition (raises _ .here _ (.condition rfl))).bind
        fun holds => ?_
      split
      · exact thenBranch.failsOnly_eval (raises.child List.mem_cons_self)
      · exact Action.failsOnly_pure _
  | .conditional _ thenBranch (some elseBranch) _, raises => by
      have asked := raises.clause List.mem_cons_self
      rw [eval]
      refine (asked.failsOnly_evalCondition (raises _ .here _ (.condition rfl))).bind
        fun holds => ?_
      split
      · exact thenBranch.failsOnly_eval (raises.child (List.mem_pair.2 (.inl rfl)))
      · exact elseBranch.failsOnly_eval (raises.child (List.mem_pair.2 (.inr rfl)))
  | .whileLoop _ _ _, raises => raises.failsOnly_uncovered rfl
  | .forLoop _ _ _ _ _, raises => raises.failsOnly_uncovered rfl
  | .returned _ _, raises => raises.failsOnly_uncovered rfl
  | .classDeclaration _ _ _ _, raises => raises.failsOnly_uncovered rfl
  | .functionDeclaration _, raises => raises.failsOnly_uncovered rfl

/-- What stops nodes in turn is raised in one of them. -/
theorem failsOnly_evalSequence (last : Option Value) : (nodes : List Node) →
    (∀ node ∈ nodes, node.RaisesOnly allowed) → (evalSequence last nodes).FailsOnly allowed
  | [], _ => Action.failsOnly_pure _
  | node :: nodes, raises => by
      obtain ⟨here, behind⟩ := List.forall_mem_cons.1 raises
      rw [evalSequence]
      exact (node.failsOnly_eval here).bind fun value => failsOnly_evalSequence value nodes behind

end

end Node

end Origin

/-- A run is stopped by one of its nodes. -/
theorem Node.allowed_of_run {allowed : RuntimeError → Prop} {nodes : List Node}
    (each : ∀ node ∈ nodes, node.eval.FailsOnly allowed) (last : Option Value) (scopes : Scopes)
    {error : RuntimeError} (stopped : error ∈ (Node.run last nodes scopes).error) :
    allowed error := by
  induction nodes generalizing last scopes with
  | nil => cases stopped
  | cons node nodes inductionHypothesis =>
      obtain ⟨here, others⟩ := List.forall_mem_cons.1 each
      rw [Node.run] at stopped
      split at stopped
      next outcome => exact inductionHypothesis others _ _ stopped
      next outcome =>
        cases stopped
        exact here scopes error (by rw [outcome])

end TreeWalk
