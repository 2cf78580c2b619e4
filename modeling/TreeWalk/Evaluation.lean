import TreeWalk.Scopes
import TreeWalk.Value.Operators

/-!
# Evaluation

Evaluating may change the scopes and print lines, and it keeps both when it fails. An
action describes such a step; actions in sequence stop at the first error. Trees are
evaluated by recursion on their structure, operands from left to right.
-/

namespace TreeWalk

/-- What an action did: its result, the scopes after it and the lines that it printed. -/
structure Effect (α : Type) where
  result : Except RuntimeError α
  scopes : Scopes
  printed : List String

/-- A step of evaluation. -/
def Action (α : Type) : Type :=
  Scopes → Effect α

namespace Action

variable {α β : Type}

/-- Does nothing. -/
def done (value : α) : Action α := fun scopes =>
  ⟨.ok value, scopes, []⟩

/-- Fails, or does nothing. -/
def ofExcept (result : Except RuntimeError α) : Action α := fun scopes =>
  ⟨result, scopes, []⟩

/-- Does one action and then, unless it failed, the next. -/
def andThen (first : Action α) (next : α → Action β) : Action β := fun scopes =>
  match first scopes with
  | ⟨.ok value, middle, printed⟩ =>
      let second := next value middle
      ⟨second.result, second.scopes, printed ++ second.printed⟩
  | ⟨.error error, after, printed⟩ => ⟨.error error, after, printed⟩

instance : Monad Action where
  pure := done
  bind := andThen

/-- Returning a value has no effect. -/
@[simp] theorem pure_apply (value : α) (scopes : Scopes) :
    (pure value : Action α) scopes = ⟨.ok value, scopes, []⟩ := rfl

/-- After a success the next action goes on from the scopes that the first one left. -/
theorem bind_of_ok {first : Action α} {next : α → Action β} {value : α} {scopes : Scopes}
    (success : (first scopes).result = .ok value) :
    (first >>= next) scopes =
      ⟨(next value (first scopes).scopes).result, (next value (first scopes).scopes).scopes,
        (first scopes).printed ++ (next value (first scopes).scopes).printed⟩ := by
  change andThen first next scopes = _
  unfold andThen
  split
  next equal => rw [equal] at success ⊢; cases success; rfl
  next equal => rw [equal] at success; cases success

/-- After an error nothing more is done. -/
theorem bind_of_error {first : Action α} {next : α → Action β} {error : RuntimeError}
    {scopes : Scopes} (failure : (first scopes).result = .error error) :
    (first >>= next) scopes =
      ⟨.error error, (first scopes).scopes, (first scopes).printed⟩ := by
  change andThen first next scopes = _
  unfold andThen
  split
  next equal => rw [equal] at failure; cases failure
  next equal => rw [equal] at failure ⊢; cases failure; rfl

/-- Prints a line. -/
def print (line : String) : Action Unit := fun scopes =>
  ⟨.ok (), scopes, [line]⟩

/-- Declares a variable in the innermost scope. -/
def define (name : String) (value : Value) : Action Unit := fun scopes =>
  ⟨.ok (), scopes.define name value, []⟩

/-- Gives a value to the nearest variable of the name. -/
def assign (name : Identifier) (value : Value) : Action Unit := fun scopes =>
  match scopes.assign? name.name value with
  | some after => ⟨.ok (), after, []⟩
  | none => ⟨.error (.undefinedVariable name.name name.span), scopes, []⟩

/-- Looks up a variable; the span is where it is mentioned. -/
def lookup (name : String) (span : Span) : Action Value := fun scopes =>
  match scopes.get? name with
  | some value => ⟨.ok value, scopes, []⟩
  | none => ⟨.error (.undefinedVariable name span), scopes, []⟩

/-- Does an action in a scope of its own, which closes also when the action fails. -/
def enclosed (action : Action α) : Action α := fun scopes =>
  let inner := action scopes.push
  ⟨inner.result, inner.scopes.pop, inner.printed⟩

end Action

/-- A literal is its own value and a name is a variable; no other token has a value. -/
def Token.eval (token : Token) : Action Value :=
  match Value.ofKind? token.kind, token.kind with
  | some value, _ => .done value
  | none, .identifier name => .lookup name token.span
  | none, kind => .ofExcept (.error (.notImplemented (.terminal kind) token.span))

/-- Whether the first operand already decides. -/
def LogicalOperator.decidedBy : LogicalOperator → Value → Bool
  | .and, value => !value.isTruthy
  | .or, value => value.isTruthy

/-- Evaluates an expression. -/
def Expr.eval : Expr → Action Value
  | .terminal token => token.eval
  | .group inner _ => inner.eval
  | .unary operator operand span => do
      let value ← operand.eval
      .ofExcept (value.unary operator span)
  | .binary left operator right span => do
      let leftValue ← left.eval
      let rightValue ← right.eval
      .ofExcept (Value.binary operator leftValue rightValue span)
  | .logical left operator right _ => do
      let value ← left.eval
      if operator.decidedBy value then pure value else right.eval
  | .assign target value _ => do
      let value ← value.eval
      Action.assign target value
      pure value

/-- The truth of a condition, which must be a boolean. -/
def Expr.evalCondition (condition : Expr) (span : Span) : Action Bool := do
  match ← condition.eval with
  | .boolean holds => pure holds
  | _ => .ofExcept (.error (.typeMismatch .condition .boolean span))

mutual

/-- Evaluates a node. Statements that are no expressions have no value. -/
def Node.eval : Node → Action (Option Value)
  | .expression value => do
      let value ← value.eval
      pure (some value)
  | .expressionStatement value _ => do
      let value ← value.eval
      pure (some value)
  | .print value _ => do
      let value ← value.eval
      Action.print value.text
      pure none
  | .variableDeclaration name none _ => do
      Action.define name.name .nil
      pure none
  | .variableDeclaration name (some value) _ => do
      let value ← value.eval
      Action.define name.name value
      pure none
  | .block body _ => (Node.evalSequence none body).enclosed
  | .conditional condition thenBranch none span => do
      if ← condition.evalCondition span then thenBranch.eval else pure none
  | .conditional condition thenBranch (some elseBranch) span => do
      if ← condition.evalCondition span then thenBranch.eval else elseBranch.eval
  | .whileLoop _ _ span => .ofExcept (.error (.notImplemented .whileStatement span))
  | .forLoop _ _ _ _ span => .ofExcept (.error (.notImplemented .forStatement span))
  | .returned _ span => .ofExcept (.error (.notImplemented .returnStatement span))
  | .classDeclaration _ _ _ span =>
      .ofExcept (.error (.notImplemented .classDeclaration span))
  | .functionDeclaration function =>
      .ofExcept (.error (.notImplemented .functionDeclaration function.span))

/-- Evaluates nodes in turn; the value is that of the last one, or else the one given. -/
def Node.evalSequence (last : Option Value) : List Node → Action (Option Value)
  | [] => pure last
  | node :: nodes => do
      let value ← node.eval
      Node.evalSequence value nodes

end

/-- Evaluates nodes in a scope of their own. -/
def Node.evalBlock (body : List Node) : Action (Option Value) :=
  (Node.evalSequence none body).enclosed

end TreeWalk
