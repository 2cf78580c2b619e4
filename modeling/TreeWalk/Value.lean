import TreeWalk.Token

/-!
# Values

The four types of values that expressions have. Only `nil` and `false` count as false.
-/

namespace TreeWalk

/-- What an expression evaluates to. -/
inductive Value where
  | number (value : Float)
  | string (content : String)
  | boolean (value : Bool)
  | nil
deriving DecidableEq

namespace Value

/-- The value that a token stands for by itself. -/
def ofKind? : Kind → Option Value
  | .number value _ => some (number value)
  | .string content => some (string content)
  | .keyword .trueWord => some (boolean true)
  | .keyword .falseWord => some (boolean false)
  | .keyword .nilWord => some nil
  | _ => none

/-- Whether the value counts as true where a decision is made. -/
def isTruthy : Value → Bool
  | nil => false
  | boolean value => value
  | _ => true

/-- The name of the value's type. -/
def typeName : Value → String
  | number _ => "number"
  | string _ => "string"
  | boolean _ => "boolean"
  | nil => "nil"

/-- The text that printing the value shows. -/
def text : Value → String
  | number value => Double.printed value
  | string content => content
  | boolean true => "true"
  | boolean false => "false"
  | nil => "nil"

/-- Equality as the language sees it: values of two types differ, and numbers compare as
numbers, so one that is not a number differs from itself and zeros are equal. -/
def same : Value → Value → Bool
  | number left, number right => left == right
  | left, right => left == right

end Value

end TreeWalk
