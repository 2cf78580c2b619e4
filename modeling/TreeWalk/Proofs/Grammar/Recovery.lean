import Mathlib.Data.List.Basic
import TreeWalk.Proofs.Grammar.Progress

/-!
# Where a failed rule stops

Nothing is skipped behind an error: reading goes on where the failed rule left the cursor. That
place is told by the error. A token that stands in the place of another is the one ahead, and an
unexpected token is the last one taken, unless it is the equals sign of a refused assignment. At
an unexpected end all tokens were taken.
-/

namespace TreeWalk

open Grammar

/-- The cursor that has passed over the first tokens of a list. -/
def Cursor.behind (front ahead : List Token) : Cursor where
  ahead := ahead
  position := front.length
  ending := endingOf (front ++ ahead)

/-- How an error that is met from `start` to `stop` concerns the tokens there. The equals sign of
a refused assignment stands between a target that is no variable and the value. -/
def SyntaxError.MetBetween (tokens : List Token) (start stop : Nat) : SyntaxError → Prop
  | missingToken expected found =>
      tokens[stop]? = some found ∧ found.kind ≠ .punctuator expected
  | unexpectedEnd span => stop = tokens.length ∧ span = endingOf tokens
  | unexpectedToken found =>
      ∃ index, start ≤ index ∧ index < stop ∧ tokens[index]? = some found ∧
        (index + 1 = stop ∨
          found.kind = .punctuator .equal ∧
            ∃ first target value, start ≤ first ∧ first ≤ index ∧
              (expressionOf (endingOf tokens) (.infixed .disjunction)
                (tokens.drop first)).Succeeds target (tokens.drop index) ∧
              Expr.variable? target = none ∧
              (expressionOf (endingOf tokens) .assignment
                (tokens.drop (index + 1))).Succeeds value (tokens.drop stop))

namespace Grammar

/-- All that reads tokens: the rules and what they are made of. Behind a keyword or an opening
brace its span is given. -/
inductive Procedure : Type → Type where
  | rule (rule : Rule) : Procedure Phrase
  | expect (mark : Punctuator) : Procedure Token
  | identifier : Procedure Identifier
  | parameters : Procedure (List Identifier)
  | optionalExpression (terminator : Punctuator) : Procedure (Option Expr)
  | expressionStatement : Procedure Node
  | printStatement (keyword : Span) : Procedure Node
  | returnStatement (keyword : Span) : Procedure Node
  | variableDeclaration (keyword : Span) : Procedure Node
  | block (brace : Span) : Procedure Node
  | conditional (keyword : Span) : Procedure Node
  | whileLoop (keyword : Span) : Procedure Node
  | forLoop (keyword : Span) : Procedure Node
  | function (keyword : Span) : Procedure Function
  | classDeclaration (keyword : Span) : Procedure Node

namespace Procedure

variable {α : Type}

/-- The reading of a procedure from the front of tokens. -/
def read (procedure : Procedure α) (ending : Span) (tokens : List Token) :
    Reading α tokens.length :=
  match procedure with
  | rule basic => (basic.read ending tokens).widen
  | expect mark => Grammar.expect ending mark tokens
  | identifier => (Grammar.identifier ending tokens).widen
  | parameters => Grammar.parameters ending tokens
  | optionalExpression terminator => Grammar.optionalExpression ending terminator tokens
  | expressionStatement => (Grammar.expressionStatement ending tokens).widen
  | printStatement keyword => (Grammar.printStatement ending keyword tokens).widen
  | returnStatement keyword => Grammar.returnStatement ending keyword tokens
  | variableDeclaration keyword => (Grammar.variableDeclaration ending keyword tokens).widen
  | block brace => (Grammar.blockBody ending tokens).map fun body => .block body brace
  | conditional keyword => (Grammar.conditional ending keyword tokens).widen
  | whileLoop keyword => (Grammar.whileLoop ending keyword tokens).widen
  | forLoop keyword => Grammar.forLoop ending keyword tokens
  | function keyword => (Grammar.function ending keyword tokens).widen
  | classDeclaration keyword => (Grammar.classDeclaration ending keyword tokens).widen

/-- Runs a procedure at a cursor. -/
def run (procedure : Procedure α) (cursor : Cursor) : Except SyntaxError α × Cursor :=
  let reading := procedure.read cursor.ending cursor.ahead
  (reading.outcome, cursor.moveTo reading.rest)

/-- Every procedure accounts for its tokens. -/
theorem accounts_read (procedure : Procedure α) (ending : Span) (tokens : List Token) :
    (procedure.read ending tokens).Accounts ending tokens := by
  cases procedure <;> rw [read]
  case rule basic => exact (basic.accounts_read ending tokens).widen
  case expect mark => exact accounts_expect ending mark tokens
  case identifier => exact (accounts_identifier ending tokens).widen
  case parameters => exact accounts_parameters ending tokens
  case optionalExpression terminator => exact accounts_optionalExpression ending terminator tokens
  case expressionStatement => exact (accounts_expressionStatement ending tokens).widen
  case printStatement keyword => exact (accounts_printStatement ending keyword tokens).widen
  case returnStatement keyword => exact accounts_returnStatement ending keyword tokens
  case variableDeclaration keyword =>
    exact (accounts_variableDeclaration ending keyword tokens).widen
  case block => exact (accounts_blockBody ending tokens).map
  case conditional keyword => exact (accounts_conditional ending keyword tokens).widen
  case whileLoop keyword => exact (accounts_whileLoop ending keyword tokens).widen
  case forLoop keyword => exact accounts_forLoop ending keyword tokens
  case function keyword => exact (accounts_function ending keyword tokens).widen
  case classDeclaration keyword => exact (accounts_classDeclaration ending keyword tokens).widen

end Procedure

end Grammar

/-- Behind the front of a split list stands the rest. -/
theorem drop_of_split {tokens front rest : List Token} (split : tokens = front ++ rest) :
    tokens.drop front.length = rest := by
  rw [split, List.drop_left]

/-- What an error says of the tokens that were taken and left, said by their places in the list. -/
theorem SyntaxError.Concerns.metBetween {error : SyntaxError} {front taken rest : List Token}
    (concerns : error.Concerns (endingOf (front ++ (taken ++ rest))) taken rest) :
    error.MetBetween (front ++ (taken ++ rest)) front.length (front.length + taken.length) := by
  generalize whole : front ++ (taken ++ rest) = tokens at concerns ⊢
  cases concerns with
  | missing other =>
      refine ⟨?_, other⟩
      rw [← whole]
      simp
  | ended =>
      refine ⟨?_, rfl⟩
      rw [← whole]
      simp
  | unexpected last =>
      obtain ⟨others, rfl⟩ := List.getLast?_eq_some_iff.1 last
      refine ⟨front.length + others.length, by simp, by simp, ?_, .inl (by simp [Nat.add_assoc])⟩
      rw [← whole]
      simp
  | @refused found _ before left right _ target value placed equals assigned noVariable read =>
      subst placed
      -- The tokens are cut at each place that the error tells of.
      have fromTarget : tokens = (front ++ before) ++ (left ++ found :: right ++ rest) := by
        simp [← whole]
      have fromEqual : tokens = (front ++ before ++ left) ++ (found :: right ++ rest) := by
        simp [← whole]
      have fromValue : tokens = (front ++ before ++ left ++ [found]) ++ (right ++ rest) := by
        simp [← whole]
      have fromRest : tokens = (front ++ (before ++ left ++ found :: right)) ++ rest := by
        simp [← whole]
      have next : (front ++ before ++ left).length + 1 =
          (front ++ before ++ left ++ [found]).length := by simp [Nat.add_assoc]
      refine ⟨(front ++ before ++ left).length, by simp, by simp, ?_, .inr
        ⟨equals, (front ++ before).length, target, value, by simp, by simp, ?_, noVariable, ?_⟩⟩
      · rw [fromEqual]
        simp
      · rw [drop_of_split fromTarget, drop_of_split fromEqual]
        exact assigned
      · rw [next, drop_of_split fromValue, ← List.length_append, drop_of_split fromRest]
        exact read

namespace Grammar

/-- A failed reading that accounts for its tokens stops where its error tells. -/
theorem Reading.Accounts.metBetween {α : Type} {limit : Nat} {reading : Reading α limit}
    {error : SyntaxError} {front ahead : List Token}
    (accounts : reading.Accounts (endingOf (front ++ ahead)) ahead)
    (failure : reading.outcome = .error error) :
    error.MetBetween (front ++ ahead) front.length
        ((Cursor.behind front ahead).moveTo reading.rest).position ∧
      reading.rest =
        (front ++ ahead).drop ((Cursor.behind front ahead).moveTo reading.rest).position := by
  obtain ⟨taken, whole, about⟩ := accounts
  have stop : ((Cursor.behind front ahead).moveTo reading.rest).position =
      (front ++ taken).length := by
    have total := congrArg List.length whole
    rw [List.length_append] at total
    simp only [Cursor.moveTo, Cursor.behind, List.length_append]
    omega
  have split : front ++ ahead = (front ++ taken) ++ reading.rest := by
    rw [List.append_assoc, ← whole]
  rw [stop]
  refine ⟨?_, (drop_of_split split).symm⟩
  have concerns := about error failure
  rw [split, List.append_assoc] at concerns ⊢
  rw [List.length_append]
  exact concerns.metBetween

/-- Failures leave the cursor where their errors tell. Whatever is read at whatever place in a list
of tokens, a missing token leaves the cursor in front of the token that stands in its place, and an
unexpected end leaves it behind the last token, where the empty span of the error is. An unexpected
token is the last one that was taken, or the equals sign between a target that was read but is no
variable and a value that was read. -/
theorem failures_leave_the_cursor {α : Type} (procedure : Procedure α) (front ahead : List Token)
    {error : SyntaxError} {after : Cursor}
    (failure : procedure.run (.behind front ahead) = (.error error, after)) :
    error.MetBetween (front ++ ahead) front.length after.position ∧
      after.ahead = (front ++ ahead).drop after.position := by
  rw [Procedure.run, Prod.mk.injEq] at failure
  obtain ⟨outcome, rfl⟩ := failure
  exact (procedure.accounts_read _ _).metBetween outcome

/-- Behind a `return` the sum in `1 + 2 = 3` is refused as a target, in front of the semicolon. -/
theorem failures_leave_the_cursor_sum :
    let tokens := (scan "return 1 + 2 = 3;").produced
    let read := (Procedure.optionalExpression .semicolon).run
      (.behind (tokens.take 1) (tokens.drop 1))
    read.1 = .error (.unexpectedToken ⟨.punctuator .equal, ⟨1, 13, 1⟩⟩) ∧ read.2.position = 6 ∧
      SyntaxError.MetBetween (tokens.take 1 ++ tokens.drop 1) 1 6
        (.unexpectedToken ⟨.punctuator .equal, ⟨1, 13, 1⟩⟩) := by
  intro tokens read
  have outcome : read.1 = .error (.unexpectedToken ⟨.punctuator .equal, ⟨1, 13, 1⟩⟩) := by
    decide +kernel
  have stop : read.2.position = 6 := by decide +kernel
  have start : (tokens.take 1).length = 1 := by decide +kernel
  have met := (failures_leave_the_cursor (.optionalExpression .semicolon) (tokens.take 1)
    (tokens.drop 1) (Prod.ext outcome rfl)).1
  rw [start] at met
  exact ⟨outcome, stop, stop ▸ met⟩

end Grammar

end TreeWalk
