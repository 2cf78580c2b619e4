import TreeWalk.Proofs.Syntax.Relocation
import TreeWalk.Session

/-!
# Evaluation does not look at spans

A tree with moved spans evaluates to the same value, with the same lines and the same scopes.
Only the span of an error moves along.
-/

namespace TreeWalk

variable (move : Span → Span)

/-- The same effect, with the span of the error moved. -/
def Effect.relocate {α : Type} (effect : Effect α) : Effect α :=
  { effect with result := effect.result.mapError (RuntimeError.relocate move) }

namespace Action

variable {α β : Type}

/-- The same action, with the span of its error moved. -/
def relocate (action : Action α) : Action α := fun scopes =>
  (action scopes).relocate move

/-- Returning a value has no span to move. -/
theorem relocate_pure (value : α) : (pure value : Action α).relocate move = pure value := rfl

/-- A result is moved by the span of its error. -/
theorem relocate_ofExcept (result : Except RuntimeError α) :
    (ofExcept result).relocate move = ofExcept (result.mapError (RuntimeError.relocate move)) :=
  rfl

/-- Printing has no span to move. -/
theorem relocate_print (line : String) : (print line).relocate move = print line := rfl

/-- A declaration has no span to move. -/
theorem relocate_define (name : String) (value : Value) :
    (define name value).relocate move = define name value := rfl

/-- An assignment is moved by the span of its variable. -/
theorem relocate_assign (name : Identifier) (value : Value) :
    (assign name value).relocate move = assign (name.relocate move) value := by
  funext scopes
  unfold relocate assign
  rw [Identifier.name_relocate]
  cases scopes.assign? name.name value <;> rfl

/-- A look-up is moved by its span. -/
theorem relocate_lookup (name : String) (span : Span) :
    (lookup name span).relocate move = lookup name (move span) := by
  funext scopes
  unfold relocate lookup
  cases scopes.get? name <;> rfl

/-- A sequence is relocated part by part. -/
theorem relocate_bind (first : Action α) (next : α → Action β) :
    (first >>= next).relocate move =
      first.relocate move >>= fun value => (next value).relocate move := by
  funext scopes
  cases outcome : (first scopes).result with
  | ok value =>
      have moved : (first.relocate move scopes).result = .ok value := by
        rw [relocate, Effect.relocate, outcome]
        rfl
      rw [relocate, bind_of_ok outcome, bind_of_ok moved]
      rfl
  | error error =>
      have moved : (first.relocate move scopes).result = .error (error.relocate move) := by
        rw [relocate, Effect.relocate, outcome]
        rfl
      rw [relocate, bind_of_error outcome, bind_of_error moved]
      rfl

/-- To open a scope around an action leaves its spans as they are. -/
theorem relocate_enclosed (action : Action α) :
    action.enclosed.relocate move = (action.relocate move).enclosed := rfl

end Action

/-- A unary operator that stands elsewhere has the same value, and its error there. -/
theorem Value.unary_relocate (operator : UnaryOperator) (value : Value) (span : Span) :
    (value.unary operator span).mapError (RuntimeError.relocate move) =
      value.unary operator (move span) := by
  cases operator <;> cases value <;> rfl

/-- A binary operator that stands elsewhere has the same value, and its error there. -/
theorem Value.binary_relocate (operator : BinaryOperator) (left right : Value) (span : Span) :
    (Value.binary operator left right span).mapError (RuntimeError.relocate move) =
      Value.binary operator left right (move span) := by
  cases operator <;> cases left <;> cases right <;> rfl

/-- A moved terminal is evaluated as the terminal is, but for the span of its error. -/
theorem Token.eval_relocate (token : Token) :
    (token.relocate move).eval = token.eval.relocate move := by
  obtain ⟨kind, span⟩ := token
  cases kind with
  | identifier name => exact (Action.relocate_lookup move name span).symm
  | keyword word => cases word <;> rfl
  | _ => rfl

/-- A moved expression evaluates alike. -/
theorem Expr.eval_relocate (value : Expr) :
    (value.relocate move).eval = value.eval.relocate move := by
  induction value with
  | terminal token => exact token.eval_relocate move
  | group inner _ inside => exact inside
  | unary operator operand span behind =>
      simp only [Expr.relocate, Expr.eval, Action.relocate_bind, Action.relocate_ofExcept, behind,
        Value.unary_relocate]
  | binary left operator right span before behind =>
      simp only [Expr.relocate, Expr.eval, Action.relocate_bind, Action.relocate_ofExcept, before,
        behind, Value.binary_relocate]
  | logical left operator right span before behind =>
      simp only [Expr.relocate, Expr.eval, Action.relocate_bind, before, behind]
      congr 1
      funext value
      split
      · exact (Action.relocate_pure move value).symm
      · rfl
  | assign target value span behind =>
      simp only [Expr.relocate, Expr.eval, Action.relocate_bind, Action.relocate_pure,
        Action.relocate_assign, behind]

/-- A moved condition is evaluated as the condition is, but for the span of its error. -/
theorem Expr.evalCondition_relocate (condition : Expr) (span : Span) :
    (condition.relocate move).evalCondition (move span) =
      (condition.evalCondition span).relocate move := by
  simp only [Expr.evalCondition, Action.relocate_bind, Expr.eval_relocate]
  congr 1
  funext value
  cases value <;> rfl

mutual

/-- A moved node evaluates alike. -/
theorem Node.eval_relocate : (node : Node) → (node.relocate move).eval = node.eval.relocate move
  | .expression value => by
      simp only [Node.relocate, Node.eval, Action.relocate_bind, Action.relocate_pure,
        Expr.eval_relocate]
  | .expressionStatement value _ => by
      simp only [Node.relocate, Node.eval, Action.relocate_bind, Action.relocate_pure,
        Expr.eval_relocate]
  | .print value _ => by
      simp only [Node.relocate, Node.eval, Action.relocate_bind, Action.relocate_pure,
        Action.relocate_print, Expr.eval_relocate]
  | .variableDeclaration name none _ => by
      simp only [Node.relocate, Option.map_none, Node.eval, Action.relocate_bind,
        Action.relocate_pure, Action.relocate_define, Identifier.name_relocate]
  | .variableDeclaration name (some value) _ => by
      simp only [Node.relocate, Option.map_some, Node.eval, Action.relocate_bind,
        Action.relocate_pure, Action.relocate_define, Identifier.name_relocate,
        Expr.eval_relocate]
  | .block body _ => by
      simp only [Node.relocate, Node.eval, Action.relocate_enclosed,
        Node.evalSequence_relocate none body]
  | .conditional condition thenBranch none span => by
      simp only [Node.relocate, Node.eval, Action.relocate_bind, Expr.evalCondition_relocate,
        thenBranch.eval_relocate]
      congr 1
      funext holds
      cases holds <;> rfl
  | .conditional condition thenBranch (some elseBranch) span => by
      simp only [Node.relocate, Node.eval, Action.relocate_bind, Expr.evalCondition_relocate,
        thenBranch.eval_relocate, elseBranch.eval_relocate]
      congr 1
      funext holds
      cases holds <;> rfl
  -- What is not covered fails at the span of the node, which is moved with it.
  | .whileLoop _ _ _ => by
      simp only [Node.relocate, Node.eval]
      rfl
  | .forLoop none _ _ _ _ => by
      simp only [Node.relocate, Node.eval]
      rfl
  | .forLoop (some _) _ _ _ _ => by
      simp only [Node.relocate, Node.eval]
      rfl
  | .returned _ _ => by
      simp only [Node.relocate, Node.eval]
      rfl
  | .classDeclaration _ _ _ _ => by
      simp only [Node.relocate, Node.eval]
      rfl
  | .functionDeclaration (.mk _ _ _ _) => by
      simp only [Node.relocate, Node.eval]
      rfl

/-- Moved nodes in turn evaluate alike. -/
theorem Node.evalSequence_relocate (last : Option Value) : (nodes : List Node) →
    Node.evalSequence last (Node.relocateAll move nodes) =
      (Node.evalSequence last nodes).relocate move
  | [] => rfl
  | node :: nodes => by
      simp only [Node.relocateAll, Node.evalSequence, Action.relocate_bind, node.eval_relocate]
      congr 1
      funext value
      exact Node.evalSequence_relocate value nodes

end

/-- The same run, with the span of the error moved. -/
def Run.relocate (run : Run) : Run :=
  { run with error := run.error.map (RuntimeError.relocate move) }

/-- A moved program runs alike. -/
theorem Node.run_relocate (last : Option Value) (nodes : List Node) (scopes : Scopes) :
    Node.run last (nodes.map (Node.relocate move)) scopes =
      (Node.run last nodes scopes).relocate move := by
  induction nodes generalizing last scopes with
  | nil => rfl
  | cons node nodes inductionHypothesis =>
      rw [List.map_cons, Node.run, Node.run, Node.eval_relocate, Action.relocate, Effect.relocate]
      rcases node.eval scopes with ⟨error | value, middle, printed⟩
      · rfl
      · dsimp only [Except.mapError]
        rw [inductionHypothesis]
        rfl

end TreeWalk
