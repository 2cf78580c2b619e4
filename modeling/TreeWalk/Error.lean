import TreeWalk.Syntax

/-!
# Errors

Each stage has its own causes of failure. A cause keeps the span that it is about, and
`message` is its one line of text. Errors of the first two stages are static: they are
found before anything runs.
-/

namespace TreeWalk

/-- What keeps a piece of source from being a token. -/
inductive LexicalError where
  /-- The character begins no token. -/
  | unexpectedCharacter (character : Char) (span : Span)
  /-- No quote closes the string: its content is all that follows the opening one, and the
  span is the end of the source. -/
  | unterminatedString (content : String) (span : Span)
deriving DecidableEq

/-- What keeps tokens from being a tree. -/
inductive SyntaxError where
  /-- A token that nothing can go on with. -/
  | unexpectedToken (found : Token)
  /-- A token that stands where only one punctuator can. -/
  | missingToken (expected : Punctuator) (found : Token)
  /-- The end of the tokens, where something has to follow. -/
  | unexpectedEnd (span : Span)
deriving DecidableEq

/-- What an operator, or a condition, asks of its operands. -/
inductive Operands where
  | numbersOrStrings | arithmetic | numbers | number | boolean
deriving DecidableEq, Repr

/-- What operands are put to. -/
inductive Operation where
  | unary (operator : UnaryOperator)
  | binary (operator : BinaryOperator)
  | condition
deriving DecidableEq, Repr

/-- What can be read but not evaluated. -/
inductive Construct where
  | whileStatement | forStatement | returnStatement | classDeclaration | functionDeclaration
  /-- A terminal of a kind that is neither a literal nor a variable. -/
  | terminal (kind : Kind)
deriving DecidableEq

/-- What stops an evaluation. -/
inductive RuntimeError where
  /-- No scope holds the name. -/
  | undefinedVariable (name : String) (span : Span)
  /-- The operands are not of the types that the operation takes. -/
  | typeMismatch (operation : Operation) (expected : Operands) (span : Span)
  /-- Evaluation does not cover the construct. -/
  | notImplemented (construct : Construct) (span : Span)
deriving DecidableEq

/-- The errors of all stages. -/
inductive Error where
  | lexical (error : LexicalError)
  | syntactic (error : SyntaxError)
  | runtime (error : RuntimeError)
deriving DecidableEq

/-- The line of an error report. -/
def Span.report (span : Span) (text : String) : String :=
  "[line " ++ toString span.line ++ "] Error: " ++ text

namespace LexicalError

/-- What the error is about. -/
def span : LexicalError → Span
  | unexpectedCharacter _ span => span
  | unterminatedString _ span => span

/-- The error's line of text. -/
def message (error : LexicalError) : String :=
  error.span.report <| match error with
    | unexpectedCharacter character _ => "Unexpected character: " ++ character.toString
    | unterminatedString _ _ => "Unterminated string."

end LexicalError

namespace SyntaxError

/-- What the error is about. -/
def span : SyntaxError → Span
  | unexpectedToken found => found.span
  | missingToken _ found => found.span
  | unexpectedEnd span => span

/-- The error's line of text. -/
def message (error : SyntaxError) : String :=
  error.span.report <| match error with
    | unexpectedToken found => "Unexpected token: " ++ found.kind.lexeme
    | missingToken expected found =>
        "Missing token: expected '" ++ expected.text ++ "' got '" ++ found.kind.lexeme ++ "'"
    | unexpectedEnd _ => "Unexpected EOF"

end SyntaxError

/-- The operator as written, or the keyword that takes the condition. -/
def Operation.text : Operation → String
  | unary operator => operator.text
  | binary operator => operator.text
  | condition => Keyword.ifWord.text

/-- The name of the construct. -/
def Construct.text : Construct → String
  | whileStatement => "while statement"
  | forStatement => "for statement"
  | returnStatement => "return statement"
  | classDeclaration => "class declaration"
  | functionDeclaration => "function declaration"
  | terminal kind => kind.name

namespace RuntimeError

/-- What the error is about. -/
def span : RuntimeError → Span
  | undefinedVariable _ span => span
  | typeMismatch _ _ span => span
  | notImplemented _ span => span

/-- The error's line of text. Only arithmetic names its operator. -/
def message (error : RuntimeError) : String :=
  error.span.report <| match error with
    | undefinedVariable name _ => "Undefined variable '" ++ name ++ "'."
    | typeMismatch _ .numbersOrStrings _ => "Operands must be two numbers or two strings."
    | typeMismatch operation .arithmetic _ => "invalid operation: " ++ operation.text
    | typeMismatch _ .numbers _ => "Operands must be numbers."
    | typeMismatch _ .number _ => "Operand must be a number."
    | typeMismatch _ .boolean _ => "Condition must be a boolean."
    | notImplemented construct _ => "Not implemented: " ++ construct.text

end RuntimeError

namespace Error

/-- What the error is about. -/
def span : Error → Span
  | lexical error => error.span
  | syntactic error => error.span
  | runtime error => error.span

/-- The error's line of text. -/
def message : Error → String
  | lexical error => error.message
  | syntactic error => error.message
  | runtime error => error.message

/-- Whether the error is found before anything runs. -/
def isStatic : Error → Bool
  | lexical _ => true
  | syntactic _ => true
  | runtime _ => false

/-- The exit code that one error stands for. -/
def exitCode (error : Error) : Nat :=
  if error.isStatic then 65 else 70

/-- The exit code of a whole run: static errors outweigh the others. -/
def exitCodeOf (errors : List Error) : Nat :=
  if errors.isEmpty then 0
  else if errors.any isStatic then 65
  else 70

end Error

/-- What a stage produced, next to the errors that it met on the way. -/
structure Outcome (α ε : Type) where
  produced : α
  errors : List ε

end TreeWalk
