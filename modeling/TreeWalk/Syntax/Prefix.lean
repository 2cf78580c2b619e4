import TreeWalk.Syntax

/-!
# Prefix form

Every tree but a terminal is written in parentheses, what introduces it first and its
parts after it, each behind one blank. In a `for` an absent clause is written `_`;
elsewhere absent parts are left out.
-/

namespace TreeWalk

/-- A literal as in listings and any other token as in a source; strings without quotes. -/
def Kind.prefixForm : Kind → String
  | .number value _ => Double.literal value
  | .string content => content
  | kind => kind.lexeme

namespace Expr

/-- The expression in prefix form. -/
def prefixForm : Expr → String
  | terminal token => token.kind.prefixForm
  | group inner _ => "(group " ++ inner.prefixForm ++ ")"
  | unary operator operand _ => "(" ++ operator.text ++ " " ++ operand.prefixForm ++ ")"
  | binary left operator right _ =>
      "(" ++ operator.text ++ " " ++ left.prefixForm ++ " " ++ right.prefixForm ++ ")"
  | logical left operator right _ =>
      "(" ++ operator.text ++ " " ++ left.prefixForm ++ " " ++ right.prefixForm ++ ")"
  | assign target value _ => "(= " ++ target.name ++ " " ++ value.prefixForm ++ ")"

/-- A clause of a `for`. -/
def clauseForm : Option Expr → String
  | none => "_"
  | some clause => clause.prefixForm

end Expr

mutual

/-- The function in prefix form, its parameters in one list. -/
def Function.prefixForm : Function → String
  | .mk name parameters body _ =>
      "(fun " ++ name.name ++ " (" ++ " ".intercalate (parameters.map Identifier.name) ++ ")" ++
        Node.prefixForms body ++ ")"

/-- The functions in prefix form, each behind a blank. -/
def Function.prefixForms : List Function → String
  | [] => ""
  | function :: functions => " " ++ function.prefixForm ++ Function.prefixForms functions

/-- The node in prefix form. -/
def Node.prefixForm : Node → String
  | .expression value => value.prefixForm
  | .expressionStatement value _ => "(; " ++ value.prefixForm ++ ")"
  | .print value _ => "(print " ++ value.prefixForm ++ ")"
  | .variableDeclaration name none _ => "(var " ++ name.name ++ ")"
  | .variableDeclaration name (some value) _ =>
      "(var " ++ name.name ++ " " ++ value.prefixForm ++ ")"
  | .block body _ => "(block" ++ Node.prefixForms body ++ ")"
  | .conditional condition thenBranch none _ =>
      "(if " ++ condition.prefixForm ++ " " ++ thenBranch.prefixForm ++ ")"
  | .conditional condition thenBranch (some elseBranch) _ =>
      "(if " ++ condition.prefixForm ++ " " ++ thenBranch.prefixForm ++ " " ++
        elseBranch.prefixForm ++ ")"
  | .whileLoop condition body _ =>
      "(while " ++ condition.prefixForm ++ " " ++ body.prefixForm ++ ")"
  | .forLoop none condition increment body _ =>
      "(for _ " ++ Expr.clauseForm condition ++ " " ++ Expr.clauseForm increment ++ " " ++
        body.prefixForm ++ ")"
  | .forLoop (some initializer) condition increment body _ =>
      "(for " ++ initializer.prefixForm ++ " " ++ Expr.clauseForm condition ++ " " ++
        Expr.clauseForm increment ++ " " ++ body.prefixForm ++ ")"
  | .returned none _ => "(return)"
  | .returned (some value) _ => "(return " ++ value.prefixForm ++ ")"
  | .classDeclaration name none methods _ =>
      "(class " ++ name.name ++ Function.prefixForms methods ++ ")"
  | .classDeclaration name (some superclass) methods _ =>
      "(class " ++ name.name ++ " < " ++ superclass.name ++ Function.prefixForms methods ++ ")"
  | .functionDeclaration function => function.prefixForm

/-- The nodes in prefix form, each behind a blank. -/
def Node.prefixForms : List Node → String
  | [] => ""
  | node :: nodes => " " ++ node.prefixForm ++ Node.prefixForms nodes

end

end TreeWalk
