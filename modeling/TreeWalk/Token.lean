import TreeWalk.Span
import TreeWalk.Double.Text

/-!
# Tokens

A kind says what a token is and carries what its text does not fix: the name of an
identifier, the content of a string, the value of a number with its text as written.
Punctuators and reserved words are finite tables of a text and a listing name.
-/

namespace TreeWalk

/-- The tokens that are not words. -/
inductive Punctuator where
  | leftBrace | rightBrace | leftParen | rightParen
  | comma | dot | plus | minus | semicolon | star | slash
  | less | lessEqual | greater | greaterEqual
  | bang | bangEqual | equal | equalEqual
deriving DecidableEq, Repr

namespace Punctuator

/-- Every punctuator. -/
def all : List Punctuator :=
  [leftBrace, rightBrace, leftParen, rightParen, comma, dot, plus, minus, semicolon, star,
    slash, less, lessEqual, greater, greaterEqual, bang, bangEqual, equal, equalEqual]

/-- The text in a source. -/
def text : Punctuator → String
  | leftBrace => "\x7b"
  | rightBrace => "\x7d"
  | leftParen => "("
  | rightParen => ")"
  | comma => ","
  | dot => "."
  | plus => "+"
  | minus => "-"
  | semicolon => ";"
  | star => "*"
  | slash => "/"
  | less => "<"
  | lessEqual => "<="
  | greater => ">"
  | greaterEqual => ">="
  | bang => "!"
  | bangEqual => "!="
  | equal => "="
  | equalEqual => "=="

/-- The name in a listing. -/
def name : Punctuator → String
  | leftBrace => "LEFT_BRACE"
  | rightBrace => "RIGHT_BRACE"
  | leftParen => "LEFT_PAREN"
  | rightParen => "RIGHT_PAREN"
  | comma => "COMMA"
  | dot => "DOT"
  | plus => "PLUS"
  | minus => "MINUS"
  | semicolon => "SEMICOLON"
  | star => "STAR"
  | slash => "SLASH"
  | less => "LESS"
  | lessEqual => "LESS_EQUAL"
  | greater => "GREATER"
  | greaterEqual => "GREATER_EQUAL"
  | bang => "BANG"
  | bangEqual => "BANG_EQUAL"
  | equal => "EQUAL"
  | equalEqual => "EQUAL_EQUAL"

/-- No punctuator is missing in the list. -/
theorem mem_all (mark : Punctuator) : mark ∈ all := by
  cases mark <;> decide

end Punctuator

/-- The reserved words. -/
inductive Keyword where
  | andWord | classWord | elseWord | falseWord | forWord | funWord | ifWord | nilWord
  | orWord | printWord | returnWord | superWord | thisWord | trueWord | varWord | whileWord
deriving DecidableEq, Repr

namespace Keyword

/-- Every reserved word. -/
def all : List Keyword :=
  [andWord, classWord, elseWord, falseWord, forWord, funWord, ifWord, nilWord, orWord,
    printWord, returnWord, superWord, thisWord, trueWord, varWord, whileWord]

/-- The text in a source. -/
def text : Keyword → String
  | andWord => "and"
  | classWord => "class"
  | elseWord => "else"
  | falseWord => "false"
  | forWord => "for"
  | funWord => "fun"
  | ifWord => "if"
  | nilWord => "nil"
  | orWord => "or"
  | printWord => "print"
  | returnWord => "return"
  | superWord => "super"
  | thisWord => "this"
  | trueWord => "true"
  | varWord => "var"
  | whileWord => "while"

/-- The name in a listing. -/
def name : Keyword → String
  | andWord => "AND"
  | classWord => "CLASS"
  | elseWord => "ELSE"
  | falseWord => "FALSE"
  | forWord => "FOR"
  | funWord => "FUN"
  | ifWord => "IF"
  | nilWord => "NIL"
  | orWord => "OR"
  | printWord => "PRINT"
  | returnWord => "RETURN"
  | superWord => "SUPER"
  | thisWord => "THIS"
  | trueWord => "TRUE"
  | varWord => "VAR"
  | whileWord => "WHILE"

/-- The reserved word with this text. -/
def ofText? (text : String) : Option Keyword :=
  all.find? fun word => word.text == text

/-- No reserved word is missing in the list. -/
theorem mem_all (word : Keyword) : word ∈ all := by
  cases word <;> decide

end Keyword

/-- The pieces of a source that separate tokens. -/
inductive Trivia where
  | comment | lineBreak | blank
deriving DecidableEq, Repr

namespace Trivia

/-- Every kind of separating piece. -/
def all : List Trivia :=
  [comment, lineBreak, blank]

/-- The name in a listing, though the scanner leaves these pieces out. -/
def name : Trivia → String
  | comment => "COMMENT"
  | lineBreak => "NEWLINE"
  | blank => "IGNORED"

end Trivia

/-- What a piece of source is. -/
inductive Kind where
  | punctuator (mark : Punctuator)
  | keyword (word : Keyword)
  | number (value : Float) (lexeme : String)
  | string (content : String)
  | identifier (name : String)
  | trivia (piece : Trivia)
deriving DecidableEq

namespace Kind

/-- The name in a listing. -/
def name : Kind → String
  | punctuator mark => mark.name
  | keyword word => word.name
  | number _ _ => "NUMBER"
  | string _ => "STRING"
  | identifier _ => "IDENTIFIER"
  | trivia piece => piece.name

/-- The text of the token in a source; separating pieces have none of their own. -/
def lexeme : Kind → String
  | punctuator mark => mark.text
  | keyword word => word.text
  | number _ lexeme => lexeme
  | string content => "\"" ++ content ++ "\""
  | identifier name => name
  | trivia _ => ""

/-- The last column of a listing: the literal that the token stands for, or `null`. -/
def literal : Kind → String
  | number value _ => Double.literal value
  | string content => content
  | _ => "null"

/-- The line of a listing. -/
def listing (kind : Kind) : String :=
  kind.name ++ " " ++ kind.lexeme ++ " " ++ kind.literal

/-- Equality of kinds, by which number values compare as numbers: one that is not a
number differs from itself, and zeros are equal. -/
def same : Kind → Kind → Bool
  | number left leftLexeme, number right rightLexeme =>
      left == right && leftLexeme == rightLexeme
  | left, right => left == right

end Kind

/-- A kind at its place in a source. -/
structure Token where
  kind : Kind
  span : Span
deriving DecidableEq

end TreeWalk
