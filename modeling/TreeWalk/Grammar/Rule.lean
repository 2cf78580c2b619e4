import TreeWalk.Grammar.Descent

/-!
# Rules at a cursor

A cursor is a place in a token list: what lies ahead, how many tokens were passed and
where the list ends. Every rule of the grammar can be run at a cursor by itself.
-/

namespace TreeWalk

/-- A place in a token list. -/
structure Cursor where
  ahead : List Token
  position : Nat
  ending : Span

namespace Cursor

/-- The cursor before the first token. -/
def start (tokens : List Token) : Cursor where
  ahead := tokens
  position := 0
  ending := Grammar.endingOf tokens

/-- The token ahead. -/
def peek (cursor : Cursor) : Option Token :=
  cursor.ahead.head?

/-- Whether no token is ahead. -/
def atEnd (cursor : Cursor) : Bool :=
  cursor.ahead.isEmpty

/-- The cursor with fewer tokens ahead. -/
def moveTo (cursor : Cursor) (rest : List Token) : Cursor where
  ahead := rest
  position := cursor.position + (cursor.ahead.length - rest.length)
  ending := cursor.ending

/-- The cursor behind the token ahead. -/
def advance (cursor : Cursor) : Cursor :=
  cursor.moveTo cursor.ahead.tail

/-- Whether a token is ahead that passes the test. -/
def check (cursor : Cursor) (test : Kind → Bool) : Bool :=
  cursor.peek.any fun token => test token.kind

/-- Takes the token ahead. -/
def next (cursor : Cursor) : Option Token × Cursor :=
  (cursor.peek, cursor.advance)

/-- Takes the token ahead if it passes the test. -/
def nextIf (cursor : Cursor) (test : Kind → Bool) : Option Token × Cursor :=
  if cursor.check test then cursor.next else (none, cursor)

end Cursor

namespace Grammar

/-- Runs a rule at a cursor. -/
def Rule.run (rule : Rule) (cursor : Cursor) : Except SyntaxError Phrase × Cursor :=
  let reading := rule.read cursor.ending cursor.ahead
  (reading.outcome, cursor.moveTo reading.rest)

end Grammar

end TreeWalk
