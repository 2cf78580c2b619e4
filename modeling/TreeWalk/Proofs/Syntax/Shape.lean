import TreeWalk.Grammar.Descent

/-!
# Shapes of trees

Which trees a program text can have. Operands bind at least as tightly as their places
ask for, an `else` never stands where a conditional in front of it could take it, and
what follows a condition never begins with a minus sign, which would go on with the
condition.
-/

namespace TreeWalk

/-- The tier of an operator between two operands. -/
def InfixOperator.tier (operator : InfixOperator) : Tier :=
  .infixed operator.level

/-- The tier of an expression: how tightly its outermost operator binds. -/
def Expr.tier : Expr → Tier
  | .terminal _ => .primary
  | .group _ _ => .primary
  | .unary _ _ _ => .unary
  | .binary _ operator _ _ => (InfixOperator.binary operator).tier
  | .logical _ operator _ _ => (InfixOperator.logical operator).tier
  | .assign _ _ _ => .assignment

/-- The operands that an operator can stand between: the left one has at least its tier
and the right one a tighter one, so operators of one tier group to the left. -/
structure InfixOperator.Takes (operator : InfixOperator) (left right : Expr) : Prop where
  left : left.tier.looseness ≤ operator.tier.looseness
  right : right.tier.looseness < operator.tier.looseness

/-- Terminals are literals or variables, and operands respect the tiers. What stands in
parentheses and what is assigned may be any expression. -/
def Expr.WellShaped : Expr → Prop
  | .terminal token => token.kind.isTerminal = true
  | .group inner _ => inner.WellShaped
  | .unary _ operand _ =>
      operand.WellShaped ∧ operand.tier.looseness ≤ Tier.unary.looseness
  | .binary left operator right _ =>
      left.WellShaped ∧ right.WellShaped ∧ (InfixOperator.binary operator).Takes left right
  | .logical left operator right _ =>
      left.WellShaped ∧ right.WellShaped ∧ (InfixOperator.logical operator).Takes left right
  | .assign _ value _ => value.WellShaped

/-- Whether the first token of the expression is a minus sign. -/
def Expr.startsWithMinus : Expr → Bool
  | .terminal _ => false
  | .group _ _ => false
  | .unary operator _ _ => operator == .negate
  | .binary left _ _ _ => left.startsWithMinus
  | .logical left _ _ _ => left.startsWithMinus
  | .assign _ _ _ => false

namespace Node

/-- Whether the first token of the node is a minus sign. -/
def startsWithMinus : Node → Bool
  | .expressionStatement value _ => value.startsWithMinus
  | _ => false

/-- Whether the node can be a branch or the body of a loop. -/
def isStatement : Node → Bool
  | .expression _ => false
  | .variableDeclaration _ _ _ => false
  | .classDeclaration _ _ _ _ => false
  | .functionDeclaration _ => false
  | _ => true

/-- Whether the node can be the first clause of a `for`. -/
def isInitializer : Node → Bool
  | .variableDeclaration _ _ _ => true
  | .expressionStatement _ _ => true
  | _ => false

/-- Whether the node ends in a conditional without `else`, which takes any `else` that
follows the node. -/
def endsOpen : Node → Bool
  | .conditional _ _ none _ => true
  | .conditional _ _ (some elseBranch) _ => elseBranch.endsOpen
  | .whileLoop _ body _ => body.endsOpen
  | .forLoop _ _ _ body _ => body.endsOpen
  | _ => false

end Node

mutual

/-- A function has a body. -/
def Function.WellShaped : Function → Prop
  | .mk _ _ body _ => body ≠ [] ∧ Node.AllWellShaped body

/-- Methods are functions at the spans of their names. -/
def Function.MethodsWellShaped : List Function → Prop
  | [] => True
  | method :: others =>
      method.WellShaped ∧ method.span = method.name.span ∧ Function.MethodsWellShaped others

/-- The shape of a declaration or a statement. -/
def Node.WellShaped : Node → Prop
  | .expression _ => False
  | .expressionStatement value span => value.WellShaped ∧ span = value.span
  | .print value _ => value.WellShaped
  | .variableDeclaration _ initializer _ => ∀ value ∈ initializer, value.WellShaped
  | .block body _ => body ≠ [] ∧ Node.AllWellShaped body
  | .conditional condition thenBranch none _ =>
      condition.WellShaped ∧
        thenBranch.WellShaped ∧ thenBranch.isStatement ∧ ¬ thenBranch.startsWithMinus
  | .conditional condition thenBranch (some elseBranch) _ =>
      condition.WellShaped ∧
        (thenBranch.WellShaped ∧ thenBranch.isStatement ∧ ¬ thenBranch.startsWithMinus) ∧
        ¬ thenBranch.endsOpen ∧ elseBranch.WellShaped ∧ elseBranch.isStatement
  | .whileLoop condition body _ =>
      condition.WellShaped ∧ body.WellShaped ∧ body.isStatement ∧ ¬ body.startsWithMinus
  | .forLoop none condition increment body _ =>
      (∀ value ∈ condition, value.WellShaped) ∧ (∀ value ∈ increment, value.WellShaped) ∧
        body.WellShaped ∧ body.isStatement
  | .forLoop (some initializer) condition increment body _ =>
      (initializer.WellShaped ∧ initializer.isInitializer) ∧
        (∀ value ∈ condition, value.WellShaped) ∧ (∀ value ∈ increment, value.WellShaped) ∧
        body.WellShaped ∧ body.isStatement
  | .returned result _ => ∀ value ∈ result, value.WellShaped
  | .classDeclaration _ _ methods _ => Function.MethodsWellShaped methods
  | .functionDeclaration function => function.WellShaped

/-- The shape of a list of declarations. -/
def Node.AllWellShaped : List Node → Prop
  | [] => True
  | node :: nodes => node.WellShaped ∧ Node.AllWellShaped nodes

end

/-- Well-shaped nodes with well-shaped nodes behind them are well-shaped. -/
theorem Node.AllWellShaped.append {nodes others : List Node} (shaped : Node.AllWellShaped nodes)
    (behind : Node.AllWellShaped others) : Node.AllWellShaped (nodes ++ others) := by
  induction nodes with
  | nil => exact behind
  | cons node nodes inductionHypothesis => exact ⟨shaped.1, inductionHypothesis shaped.2⟩

end TreeWalk
