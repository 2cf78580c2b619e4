import TreeWalk.Value
import TreeWalk.Error

/-!
# Operators on values

What each operator computes, and which operands it refuses. An error names the operator
and points at its token.
-/

namespace TreeWalk.Value

/-- Negates a number, or the truth of any value. -/
def unary (operator : UnaryOperator) (value : Value) (span : Span) :
    Except RuntimeError Value :=
  match operator, value with
  | .negate, number value => .ok (number (-value))
  | .negate, _ => .error (.typeMismatch (.unary .negate) .number span)
  | .not, value => .ok (boolean (!value.isTruthy))

/-- Adds two numbers or joins two strings. -/
def add (left right : Value) (span : Span) : Except RuntimeError Value :=
  match left, right with
  | number left, number right => .ok (number (left + right))
  | string left, string right => .ok (string (left ++ right))
  | _, _ => .error (.typeMismatch (.binary .add) .numbersOrStrings span)

/-- Subtracts or multiplies two numbers; every other operator divides them. -/
def arithmetic (operator : BinaryOperator) (left right : Value) (span : Span) :
    Except RuntimeError Value :=
  match left, right with
  | number left, number right =>
      .ok <| number <| match operator with
        | .sub => left - right
        | .mul => left * right
        | _ => left / right
  | _, _ => .error (.typeMismatch (.binary operator) .arithmetic span)

/-- Compares the sizes of two numbers; every operator that is not one of the other three
asks for at least. -/
def relational (operator : BinaryOperator) (left right : Value) (span : Span) :
    Except RuntimeError Value :=
  match left, right with
  | number left, number right =>
      .ok <| boolean <| match operator with
        | .less => decide (left < right)
        | .lessEqual => decide (left ≤ right)
        | .greater => decide (right < left)
        | _ => decide (right ≤ left)
  | _, _ => .error (.typeMismatch (.binary operator) .numbers span)

/-- Compares two values of any types; only `!=` asks for a difference. -/
def equality (operator : BinaryOperator) (left right : Value) : Value :=
  boolean (if operator = .notEqual then !left.same right else left.same right)

/-- What a binary operator makes of its operands. -/
def binary (operator : BinaryOperator) (left right : Value) (span : Span) :
    Except RuntimeError Value :=
  match operator with
  | .add => add left right span
  | .sub | .mul | .div => arithmetic operator left right span
  | .less | .lessEqual | .greater | .greaterEqual => relational operator left right span
  | .equal | .notEqual => .ok (equality operator left right)

end TreeWalk.Value
