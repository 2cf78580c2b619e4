import TreeWalk.Token

/-!
# Syntax trees

Expressions and nodes, each with the span of the token that introduces it: the
operator, the opening parenthesis or brace, the keyword, or the token itself. Trees
may have shapes that no program text has, such as a keyword as a terminal.
-/

namespace TreeWalk

/-- A name at its place in a source. -/
structure Identifier where
  name : String
  span : Span
deriving DecidableEq

/-- The operators in front of one operand. -/
inductive UnaryOperator where
  | negate | not
deriving DecidableEq, Repr

/-- The operators between two operands that are both evaluated. -/
inductive BinaryOperator where
  | add | sub | mul | div
  | less | lessEqual | greater | greaterEqual
  | equal | notEqual
deriving DecidableEq, Repr

/-- The operators whose second operand is evaluated only if the first does not decide. -/
inductive LogicalOperator where
  | and | or
deriving DecidableEq, Repr

namespace UnaryOperator

/-- The text in a source. -/
def text : UnaryOperator → String
  | negate => "-"
  | not => "!"

end UnaryOperator

namespace BinaryOperator

/-- The punctuator that stands for the operator. -/
def mark : BinaryOperator → Punctuator
  | add => .plus
  | sub => .minus
  | mul => .star
  | div => .slash
  | less => .less
  | lessEqual => .lessEqual
  | greater => .greater
  | greaterEqual => .greaterEqual
  | equal => .equalEqual
  | notEqual => .bangEqual

/-- The text in a source. -/
def text (operator : BinaryOperator) : String :=
  operator.mark.text

/-- The operator that a punctuator stands for between two operands. -/
def ofMark? : Punctuator → Option BinaryOperator
  | .plus => some add
  | .minus => some sub
  | .star => some mul
  | .slash => some div
  | .less => some less
  | .lessEqual => some lessEqual
  | .greater => some greater
  | .greaterEqual => some greaterEqual
  | .equalEqual => some equal
  | .bangEqual => some notEqual
  | _ => none

/-- Whether the operator compares sizes. -/
def isRelational : BinaryOperator → Bool
  | less | lessEqual | greater | greaterEqual => true
  | _ => false

/-- Whether the operator compares for equality. -/
def isEquality : BinaryOperator → Bool
  | equal | notEqual => true
  | _ => false

/-- A binary operator is found again by its mark. -/
theorem ofMark?_mark (operator : BinaryOperator) : ofMark? operator.mark = some operator := by
  cases operator <;> rfl

end BinaryOperator

namespace LogicalOperator

/-- The reserved word that stands for the operator. -/
def word : LogicalOperator → Keyword
  | and => .andWord
  | or => .orWord

/-- The text in a source. -/
def text (operator : LogicalOperator) : String :=
  operator.word.text

end LogicalOperator

/-- Expressions. -/
inductive Expr where
  /-- A literal or a variable, as the token that it is. -/
  | terminal (token : Token)
  | group (inner : Expr) (span : Span)
  | unary (operator : UnaryOperator) (operand : Expr) (span : Span)
  | binary (left : Expr) (operator : BinaryOperator) (right : Expr) (span : Span)
  | logical (left : Expr) (operator : LogicalOperator) (right : Expr) (span : Span)
  | assign (target : Identifier) (value : Expr) (span : Span)
deriving DecidableEq

/-- The span of the token that introduces the expression. -/
def Expr.span : Expr → Span
  | .terminal token => token.span
  | .group _ span => span
  | .unary _ _ span => span
  | .binary _ _ _ span => span
  | .logical _ _ _ span => span
  | .assign _ _ span => span

mutual

/-- Functions and methods: a method's span is that of its name. -/
inductive Function where
  | mk (name : Identifier) (parameters : List Identifier) (body : List Node) (span : Span)

/-- What a program is a list of. -/
inductive Node where
  /-- An expression on its own, outside any statement. -/
  | expression (value : Expr)
  | expressionStatement (value : Expr) (span : Span)
  | print (value : Expr) (span : Span)
  | variableDeclaration (name : Identifier) (initializer : Option Expr) (span : Span)
  | block (body : List Node) (span : Span)
  | conditional (condition : Expr) (thenBranch : Node) (elseBranch : Option Node) (span : Span)
  | whileLoop (condition : Expr) (body : Node) (span : Span)
  | forLoop (initializer : Option Node) (condition increment : Option Expr) (body : Node)
      (span : Span)
  | returned (value : Option Expr) (span : Span)
  | classDeclaration (name : Identifier) (superclass : Option Identifier)
      (methods : List Function) (span : Span)
  | functionDeclaration (function : Function)

end

namespace Function

/-- The declared name. -/
def name : Function → Identifier
  | mk name _ _ _ => name

/-- The parameters in order. -/
def parameters : Function → List Identifier
  | mk _ parameters _ _ => parameters

/-- The nodes of the body. -/
def body : Function → List Node
  | mk _ _ body _ => body

/-- The span of the keyword, or of the name for a method. -/
def span : Function → Span
  | mk _ _ _ span => span

end Function

/-- The span of the token that introduces the node. -/
def Node.span : Node → Span
  | .expression value => value.span
  | .expressionStatement _ span => span
  | .print _ span => span
  | .variableDeclaration _ _ span => span
  | .block _ span => span
  | .conditional _ _ _ span => span
  | .whileLoop _ _ span => span
  | .forLoop _ _ _ _ span => span
  | .returned _ span => span
  | .classDeclaration _ _ _ span => span
  | .functionDeclaration function => function.span

end TreeWalk
