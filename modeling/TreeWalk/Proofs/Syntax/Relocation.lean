import TreeWalk.Grammar.Descent

/-!
# Moving spans

Tokens, trees and errors with every span moved. Moving changes nothing else: the kinds of
tokens, the shapes of trees and the causes of errors stay.
-/

namespace TreeWalk

variable (move : Span → Span)

/-- The token at the moved place. -/
def Token.relocate (token : Token) : Token :=
  { token with span := move token.span }

/-- The name at the moved place. -/
def Identifier.relocate (name : Identifier) : Identifier :=
  { name with span := move name.span }

/-- The expression with every span moved. -/
def Expr.relocate : Expr → Expr
  | .terminal token => .terminal (token.relocate move)
  | .group inner span => .group inner.relocate (move span)
  | .unary operator operand span => .unary operator operand.relocate (move span)
  | .binary left operator right span =>
      .binary left.relocate operator right.relocate (move span)
  | .logical left operator right span =>
      .logical left.relocate operator right.relocate (move span)
  | .assign target value span => .assign (target.relocate move) value.relocate (move span)

mutual

/-- The function with every span moved. -/
def Function.relocate : Function → Function
  | .mk name parameters body span =>
      .mk (name.relocate move) (parameters.map (Identifier.relocate move))
        (Node.relocateAll body) (move span)

/-- The functions with every span moved. -/
def Function.relocateAll : List Function → List Function
  | [] => []
  | function :: functions => function.relocate :: Function.relocateAll functions

/-- The node with every span moved. -/
def Node.relocate : Node → Node
  | .expression value => .expression (value.relocate move)
  | .expressionStatement value span => .expressionStatement (value.relocate move) (move span)
  | .print value span => .print (value.relocate move) (move span)
  | .variableDeclaration name initializer span =>
      .variableDeclaration (name.relocate move) (initializer.map (Expr.relocate move)) (move span)
  | .block body span => .block (Node.relocateAll body) (move span)
  | .conditional condition thenBranch none span =>
      .conditional (condition.relocate move) thenBranch.relocate none (move span)
  | .conditional condition thenBranch (some elseBranch) span =>
      .conditional (condition.relocate move) thenBranch.relocate (some elseBranch.relocate)
        (move span)
  | .whileLoop condition body span =>
      .whileLoop (condition.relocate move) body.relocate (move span)
  | .forLoop none condition increment body span =>
      .forLoop none (condition.map (Expr.relocate move)) (increment.map (Expr.relocate move))
        body.relocate (move span)
  | .forLoop (some initializer) condition increment body span =>
      .forLoop (some initializer.relocate) (condition.map (Expr.relocate move))
        (increment.map (Expr.relocate move)) body.relocate (move span)
  | .returned value span => .returned (value.map (Expr.relocate move)) (move span)
  | .classDeclaration name superclass methods span =>
      .classDeclaration (name.relocate move) (superclass.map (Identifier.relocate move))
        (Function.relocateAll methods) (move span)
  | .functionDeclaration function => .functionDeclaration function.relocate

/-- The nodes with every span moved. -/
def Node.relocateAll : List Node → List Node
  | [] => []
  | node :: nodes => node.relocate :: Node.relocateAll nodes

end

/-- The error with its span moved. -/
def LexicalError.relocate : LexicalError → LexicalError
  | unexpectedCharacter character span => unexpectedCharacter character (move span)
  | unterminatedString content span => unterminatedString content (move span)

/-- The error with its span moved. -/
def SyntaxError.relocate : SyntaxError → SyntaxError
  | unexpectedToken found => unexpectedToken (found.relocate move)
  | missingToken expected found => missingToken expected (found.relocate move)
  | unexpectedEnd span => unexpectedEnd (move span)

/-- The error with its span moved. -/
def RuntimeError.relocate : RuntimeError → RuntimeError
  | undefinedVariable name span => undefinedVariable name (move span)
  | typeMismatch operation expected span => typeMismatch operation expected (move span)
  | notImplemented construct span => notImplemented construct (move span)

/-- The error with its span moved. -/
def Error.relocate : Error → Error
  | lexical error => lexical (error.relocate move)
  | syntactic error => syntactic (error.relocate move)
  | runtime error => runtime (error.relocate move)

@[simp] theorem Token.span_relocate (token : Token) :
    (token.relocate move).span = move token.span := rfl

@[simp] theorem Identifier.name_relocate (name : Identifier) :
    (name.relocate move).name = name.name := rfl

/-- An expression is introduced at the moved place. -/
@[simp] theorem Expr.span_relocate (value : Expr) :
    (value.relocate move).span = move value.span := by
  cases value <;> rfl

/-- A variable stays one, and nothing else becomes one. -/
theorem Expr.relocate_variable (value : Expr) :
    Expr.variable? (value.relocate move) = value.variable?.map (Identifier.relocate move) := by
  cases value with
  | terminal token =>
      obtain ⟨kind, span⟩ := token
      cases kind <;> rfl
  | _ => rfl

/-- A moved operation has moved operands and a moved operator. -/
theorem InfixOperator.relocate_combine (operator : InfixOperator) (left right : Expr)
    (span : Span) :
    (operator.combine left right span).relocate move =
      operator.combine (left.relocate move) (right.relocate move) (move span) := by
  cases operator <;> rfl

end TreeWalk
