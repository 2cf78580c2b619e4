import TreeWalk.Proofs.Grammar.Program
import TreeWalk.Proofs.Syntax.Relocation

/-!
# Readings look one token ahead

A rule looks at the tokens that it takes and at one more, and of their spans it only makes
spans of trees and errors. On another list that begins with the same kinds of tokens it makes
the same tree or the same error, at the spans of that list, and takes as many tokens.
-/

namespace TreeWalk.Grammar

/-- How one token list goes over into another: spans move, and so does the place where an
end is reported. -/
structure Relocation where
  move : Span → Span
  ending : Span
  moved : Span

/-- A sequence leaves no more than it was given, if no part adds tokens. -/
theorem Reading.length_rest_andThen_le {α β : Type} {inner limit length : Nat}
    {first : Reading α inner} {within : inner ≤ limit}
    {next : (value : α) → (rest : List Token) → rest.length ≤ inner → Reading β limit}
    (front : first.rest.length ≤ length)
    (behind : ∀ value rest bounded, (next value rest bounded).rest.length ≤ rest.length) :
    (first.andThen next within).rest.length ≤ length := by
  obtain ⟨outcome, rest, bounded⟩ := first
  cases outcome with
  | ok value => exact Nat.le_trans (behind value rest bounded) front
  | error error => exact front

namespace Relocation

/-- The second list has the tokens of the first one, at their new places, as far as the sight
reaches. An end in sight is the end of both, and moves like any span. -/
inductive Alike (relocation : Relocation) : Nat → List Token → List Token → Prop where
  | unseen {tokens others : List Token} : Alike relocation 0 tokens others
  | finish {sight : Nat} (same : relocation.moved = relocation.move relocation.ending) :
      Alike relocation (sight + 1) [] []
  | cons {sight : Nat} {tokens others : List Token} (kind : Kind) (span : Span)
      (behind : Alike relocation sight tokens others) :
      Alike relocation (sight + 1) (⟨kind, span⟩ :: tokens) (⟨kind, relocation.move span⟩ :: others)

/-- The second reading does what the first one does, if that one stops in sight: it makes the
changed value or the same error, it takes as many tokens, and those that are left are alike. -/
structure Follows {α : Type} {limit otherLimit : Nat} (relocation : Relocation) (change : α → α)
    (sight : Nat) (tokens others : List Token) (reading : Reading α limit)
    (other : Reading α otherLimit) : Prop where
  shorter : reading.rest.length ≤ tokens.length
  agrees : tokens.length < sight + reading.rest.length →
    other.outcome =
        (reading.outcome.map change).mapError (SyntaxError.relocate relocation.move) ∧
      tokens.length + other.rest.length = others.length + reading.rest.length ∧
      relocation.Alike (sight + reading.rest.length - tokens.length) reading.rest other.rest

variable {α β : Type} {inner otherInner limit otherLimit sight : Nat} {relocation : Relocation}
  {tokens others rest otherRest : List Token} {change : α → α} {changeResult : β → β}

/-- Of what is not seen nothing is asked but that no tokens are added. -/
theorem follows_blind {reading : Reading α limit} {other : Reading α otherLimit}
    (shorter : reading.rest.length ≤ tokens.length) :
    relocation.Follows change 0 tokens others reading other :=
  ⟨shorter, fun near => by omega⟩

/-- Of what is not seen nothing is asked, as no reading adds tokens. -/
theorem follows_unseen {reading : Reading α limit} {other : Reading α otherLimit}
    (within : limit ≤ tokens.length) : relocation.Follows change 0 tokens others reading other :=
  follows_blind (Nat.le_trans reading.bounded within)

/-- A value follows its changed self, in front of tokens that are alike. -/
theorem follows_accept {value : α} {bounded : rest.length ≤ limit}
    {otherBounded : otherRest.length ≤ otherLimit} (seen : relocation.Alike sight rest otherRest) :
    relocation.Follows change sight rest otherRest (.accept value rest bounded)
      (.accept (change value) otherRest otherBounded) := by
  refine ⟨Nat.le_refl _, fun _ => ⟨rfl, Nat.add_comm _ _, ?_⟩⟩
  rwa [Reading.rest_accept, Nat.add_sub_cancel]

/-- An error follows its moved self, in front of tokens that are alike. -/
theorem follows_reject {error : SyntaxError} {bounded : rest.length ≤ limit}
    {otherBounded : otherRest.length ≤ otherLimit} (seen : relocation.Alike sight rest otherRest) :
    relocation.Follows change sight rest otherRest (.reject error rest bounded)
      (.reject (error.relocate relocation.move) otherRest otherBounded) := by
  refine ⟨Nat.le_refl _, fun _ => ⟨rfl, Nat.add_comm _ _, ?_⟩⟩
  rwa [Reading.rest_reject, Nat.add_sub_cancel]

/-- An error at the end follows its moved self, if the end moves as spans do. -/
theorem follows_ended {bounded : [].length ≤ limit} {otherBounded : [].length ≤ otherLimit}
    (same : relocation.moved = relocation.move relocation.ending) :
    relocation.Follows change (sight + 1) [] []
      (.reject (.unexpectedEnd relocation.ending) [] bounded)
      (.reject (.unexpectedEnd relocation.moved) [] otherBounded) := by
  rw [same]
  exact follows_reject (.finish same)

namespace Follows

/-- A token that both readings took is seen before the others. -/
theorem cons {reading : Reading α limit} {other : Reading α otherLimit} {token otherToken : Token}
    (follows : relocation.Follows change sight tokens others reading other) :
    relocation.Follows change (sight + 1) (token :: tokens) (otherToken :: others) reading
      other := by
  refine ⟨Nat.le_succ_of_le follows.shorter, fun near => ?_⟩
  rw [List.length_cons] at near
  obtain ⟨outcome, taken, alike⟩ := follows.agrees (by omega)
  rw [List.length_cons, List.length_cons, Nat.add_right_comm sight, Nat.add_sub_add_right]
  exact ⟨outcome, by omega, alike⟩

/-- A reading follows as before when its bound is widened. -/
theorem widen {reading : Reading α inner} {other : Reading α otherInner} {within : inner ≤ limit}
    {otherWithin : otherInner ≤ otherLimit}
    (follows : relocation.Follows change sight tokens others reading other) :
    relocation.Follows change sight tokens others (reading.widen within)
      (other.widen otherWithin) :=
  ⟨follows.shorter, follows.agrees⟩

/-- A reading follows as before when its value is changed, if the changes agree. -/
theorem map {reading : Reading α inner} {other : Reading α otherInner} {within : inner ≤ limit}
    {otherWithin : otherInner ≤ otherLimit} {make otherMake : α → β}
    (follows : relocation.Follows change sight tokens others reading other)
    (same : ∀ value, otherMake (change value) = changeResult (make value)) :
    relocation.Follows changeResult sight tokens others (reading.map make within)
      (other.map otherMake otherWithin) := by
  refine ⟨follows.shorter, fun near => ?_⟩
  obtain ⟨outcome, left⟩ := follows.agrees near
  refine ⟨?_, left⟩
  rw [Reading.outcome_map, Reading.outcome_map, outcome]
  cases reading.outcome with
  | ok value => exact congrArg Except.ok (same value)
  | error error => rfl

/-- Readings in sequence follow each other part by part. What the first part leaves unseen the
second part leaves unseen as well. -/
theorem andThen {first : Reading α inner} {otherFirst : Reading α otherInner}
    {within : inner ≤ limit} {otherWithin : otherInner ≤ otherLimit}
    {next : (value : α) → (rest : List Token) → rest.length ≤ inner → Reading β limit}
    {otherNext : (value : α) → (rest : List Token) → rest.length ≤ otherInner →
      Reading β otherLimit}
    (front : relocation.Follows change sight tokens others first otherFirst)
    (behind : ∀ value rest bounded otherRest otherBounded sight,
      relocation.Alike sight rest otherRest →
        relocation.Follows changeResult sight rest otherRest (next value rest bounded)
          (otherNext (change value) otherRest otherBounded)) :
    relocation.Follows changeResult sight tokens others (first.andThen next within)
      (otherFirst.andThen otherNext otherWithin) := by
  obtain ⟨outcome, rest, bounded⟩ := first
  obtain ⟨otherOutcome, otherRest, otherBounded⟩ := otherFirst
  obtain ⟨shorter, agrees⟩ := front
  dsimp only at shorter agrees
  cases outcome with
  | error error =>
      refine ⟨shorter, fun near => ?_⟩
      obtain ⟨same, left⟩ := agrees near
      subst same
      exact ⟨rfl, left⟩
  | ok value =>
      have shorterStill := (behind value rest bounded otherRest otherBounded 0 .unseen).shorter
      refine ⟨Nat.le_trans shorterStill shorter, fun near => ?_⟩
      change tokens.length < sight + (next value rest bounded).rest.length at near
      obtain ⟨same, taken, alike⟩ := agrees (by omega)
      subst same
      obtain ⟨result, takenStill, left⟩ :=
        (behind value rest bounded otherRest otherBounded _ alike).agrees (by omega)
      -- What is in sight behind both is counted from the tokens in front of both.
      have reach : sight + rest.length - tokens.length + (next value rest bounded).rest.length -
          rest.length = sight + (next value rest bounded).rest.length - tokens.length := by omega
      rw [reach] at left
      refine ⟨result, ?_, left⟩
      change tokens.length + (otherNext (change value) otherRest otherBounded).rest.length =
        others.length + (next value rest bounded).rest.length
      omega

end Follows

end Relocation

open Relocation

variable {relocation : Relocation} {sight : Nat} {tokens others : List Token}

/-- A punctuator that has to come follows, missing or not. -/
theorem follows_expect (mark : Punctuator) (seen : relocation.Alike sight tokens others) :
    relocation.Follows (Token.relocate relocation.move) sight tokens others
      (expect relocation.ending mark tokens) (expect relocation.moved mark others) := by
  cases seen with
  | unseen => exact follows_unseen (Nat.le_refl _)
  | finish same => exact follows_ended same
  | cons kind span behind =>
      by_cases found : kind = .punctuator mark
      · simp only [expect, if_pos found]
        exact (follows_accept behind).cons
      · simp only [expect, if_neg found]
        exact follows_reject (.cons kind span behind)

/-- A name that has to come follows, missing or not. -/
theorem follows_identifier (seen : relocation.Alike sight tokens others) :
    relocation.Follows (Identifier.relocate relocation.move) sight tokens others
      (identifier relocation.ending tokens) (identifier relocation.moved others) := by
  cases seen with
  | unseen => exact follows_unseen (Nat.sub_le _ _)
  | finish same => exact follows_ended same
  | cons kind span behind =>
      cases kind with
      | identifier name => exact (follows_accept behind).cons
      | _ => exact (follows_reject behind).cons

mutual

/-- Expressions of every tier follow. -/
theorem follows_expressionOf (tier : Tier) {sight : Nat} {tokens others : List Token}
    (seen : relocation.Alike sight tokens others) :
    relocation.Follows (Expr.relocate relocation.move) sight tokens others
      (expressionOf relocation.ending tier tokens) (expressionOf relocation.moved tier others) := by
  cases tier with
  | assignment =>
      rw [expressionOf, expressionOf]
      refine (follows_expressionOf (.infixed .disjunction) seen).andThen ?_
      intro target rest bounded otherRest otherBounded sight seen
      cases seen with
      | unseen =>
          -- Nothing behind the target is in sight, and all that is asked is that no tokens are
          -- added.
          refine follows_blind ?_
          split
          · exact Nat.le_refl _
          next token rest _ =>
            split
            · refine Nat.le_succ_of_le (Reading.length_rest_andThen_le ?_ ?_)
              · exact Nat.le_trans (Reading.bounded _) (Nat.sub_le _ _)
              · intro value rest _
                split <;> exact Nat.le_refl _
            · exact Nat.le_refl _
      | finish same => exact follows_accept (.finish same)
      | cons kind span behind =>
          by_cases equals : kind = .punctuator .equal
          · simp only [if_pos equals]
            refine (Follows.andThen (follows_expressionOf .assignment behind) ?_).cons
            intro value rest bounded otherRest otherBounded sight seen
            rw [Expr.relocate_variable]
            cases target.variable? with
            | some name => exact follows_accept seen
            | none => exact follows_reject seen
          · simp only [if_neg equals]
            exact follows_accept (.cons kind span behind)
  | infixed level =>
      rw [expressionOf, expressionOf]
      refine (follows_expressionOf level.operand seen).andThen ?_
      intro left rest bounded otherRest otherBounded sight seen
      exact (follows_operationsOf level left seen).widen
  | unary =>
      cases seen with
      | unseen => exact follows_unseen (Nat.sub_le _ _)
      | finish same =>
          rw [expressionOf, expressionOf]
          exact follows_expressionOf .primary (.finish same)
      | cons kind span behind =>
          rw [expressionOf, expressionOf]
          dsimp only
          split
          next operator _ =>
            exact .cons (.map (follows_expressionOf .unary behind) fun _ => rfl)
          next => exact follows_expressionOf .primary (.cons kind span behind)
  | primary =>
      cases seen with
      | unseen => exact follows_unseen (Nat.sub_le _ _)
      | finish same =>
          rw [expressionOf, expressionOf]
          exact follows_ended same
      | cons kind span behind =>
          rw [expressionOf.eq_def relocation.ending .primary,
            expressionOf.eq_def relocation.moved .primary]
          dsimp only
          by_cases terminal : kind.isTerminal
          · simp only [if_pos terminal]
            exact (follows_accept behind).cons
          · by_cases opening : kind = .punctuator .leftParen
            · simp only [if_neg terminal, if_pos opening]
              refine (Follows.andThen (follows_expressionOf .assignment behind) ?_).cons
              intro inner rest bounded otherRest otherBounded sight seen
              exact (follows_expect .rightParen seen).map fun _ => rfl
            · simp only [if_neg terminal, if_neg opening]
              exact (follows_reject behind).cons
termination_by tokens.length * 10 + tier.looseness
decreasing_by
  all_goals have : Level.disjunction.looseness = 5 := rfl
  all_goals (try rw [Level.looseness_operand])
  all_goals simp only [List.length_cons, Tier.looseness] at *
  all_goals omega

/-- Operators and their operands follow. -/
theorem follows_operationsOf (level : Level) (left : Expr) {sight : Nat}
    {tokens others : List Token} (seen : relocation.Alike sight tokens others) :
    relocation.Follows (Expr.relocate relocation.move) sight tokens others
      (operationsOf relocation.ending level left tokens)
      (operationsOf relocation.moved level (left.relocate relocation.move) others) := by
  cases seen with
  | unseen => exact follows_unseen (Nat.le_refl _)
  | finish same =>
      rw [operationsOf, operationsOf]
      exact follows_accept (.finish same)
  | cons kind span behind =>
      rw [operationsOf, operationsOf]
      dsimp only
      cases InfixOperator.ofKind? kind with
      | none => exact follows_accept (.cons kind span behind)
      | some operator =>
          by_cases here : operator.level = level
          · simp only [if_pos here]
            refine (Follows.andThen (follows_expressionOf level.operand behind) ?_).cons
            intro right rest bounded otherRest otherBounded sight seen
            rw [← InfixOperator.relocate_combine]
            exact (follows_operationsOf level _ seen).widen
          · simp only [if_neg here]
            exact follows_accept (.cons kind span behind)
termination_by tokens.length * 10
decreasing_by
  all_goals have := level.looseness_le
  all_goals simp only [List.length_cons, Level.looseness_operand] at *
  all_goals omega

end

/-- Expressions follow. -/
theorem follows_expression (seen : relocation.Alike sight tokens others) :
    relocation.Follows (Expr.relocate relocation.move) sight tokens others
      (expression relocation.ending tokens) (expression relocation.moved others) :=
  follows_expressionOf .assignment seen

/-- Expressions that may be left out follow. -/
theorem follows_optionalExpression (terminator : Punctuator)
    (seen : relocation.Alike sight tokens others) :
    relocation.Follows (Option.map (Expr.relocate relocation.move)) sight tokens others
      (optionalExpression relocation.ending terminator tokens)
      (optionalExpression relocation.moved terminator others) := by
  cases seen with
  | unseen => exact follows_unseen (Nat.le_refl _)
  | finish same =>
      simp only [optionalExpression]
      exact .map (follows_expression (.finish same)) fun _ => rfl
  | cons kind span behind =>
      by_cases absent : kind = .punctuator terminator
      · simp only [optionalExpression, if_pos absent]
        exact follows_accept (.cons kind span behind)
      · simp only [optionalExpression, if_neg absent]
        exact .map (follows_expression (.cons kind span behind)) fun _ => rfl

/-- Expression statements follow. -/
theorem follows_expressionStatement (seen : relocation.Alike sight tokens others) :
    relocation.Follows (Node.relocate relocation.move) sight tokens others
      (expressionStatement relocation.ending tokens)
      (expressionStatement relocation.moved others) := by
  refine (follows_expression seen).andThen fun value rest _ otherRest _ sight seen => ?_
  rw [Expr.span_relocate]
  exact .map (follows_expect .semicolon seen) fun _ => rfl

/-- Initial values that may be left out follow. -/
theorem follows_initializer (seen : relocation.Alike sight tokens others) :
    relocation.Follows (Option.map (Expr.relocate relocation.move)) sight tokens others
      (initializer relocation.ending tokens) (initializer relocation.moved others) := by
  cases seen with
  | unseen => exact follows_unseen (Nat.le_refl _)
  | finish same => exact follows_accept (.finish same)
  | cons kind span behind =>
      by_cases equals : kind = .punctuator .equal
      · simp only [initializer, if_pos equals]
        exact .cons (.map (follows_expression behind) fun _ => rfl)
      · simp only [initializer, if_neg equals]
        exact follows_accept (.cons kind span behind)

/-- Variable declarations follow. -/
theorem follows_variableDeclaration (span : Span) (seen : relocation.Alike sight tokens others) :
    relocation.Follows (Node.relocate relocation.move) sight tokens others
      (variableDeclaration relocation.ending span tokens)
      (variableDeclaration relocation.moved (relocation.move span) others) := by
  refine (follows_identifier seen).andThen fun name rest _ otherRest _ sight seen => ?_
  refine (follows_initializer seen).andThen fun value rest _ otherRest _ sight seen => ?_
  exact .map (follows_expect .semicolon seen) fun _ => rfl

/-- Return statements follow. -/
theorem follows_returnStatement (span : Span) (seen : relocation.Alike sight tokens others) :
    relocation.Follows (Node.relocate relocation.move) sight tokens others
      (returnStatement relocation.ending span tokens)
      (returnStatement relocation.moved (relocation.move span) others) := by
  refine (follows_optionalExpression .semicolon seen).andThen
    fun value rest _ otherRest _ sight seen => ?_
  exact .map (follows_expect .semicolon seen) fun _ => rfl

/-- Print statements follow. -/
theorem follows_printStatement (span : Span) (seen : relocation.Alike sight tokens others) :
    relocation.Follows (Node.relocate relocation.move) sight tokens others
      (printStatement relocation.ending span tokens)
      (printStatement relocation.moved (relocation.move span) others) := by
  refine (follows_expression seen).andThen fun value rest _ otherRest _ sight seen => ?_
  exact .map (follows_expect .semicolon seen) fun _ => rfl

/-- The first clauses of a `for` follow. -/
theorem follows_forInitializer (seen : relocation.Alike sight tokens others) :
    relocation.Follows (Option.map (Node.relocate relocation.move)) sight tokens others
      (forInitializer relocation.ending tokens) (forInitializer relocation.moved others) := by
  cases seen with
  | unseen => exact follows_unseen (Nat.le_refl _)
  | finish same =>
      simp only [forInitializer]
      exact .map (follows_expressionStatement (.finish same)) fun _ => rfl
  | cons kind span behind =>
      have otherwise := follows_expressionStatement (.cons kind span behind)
      simp only [forInitializer]
      split
      next => exact (follows_accept behind).cons
      next => exact .cons (.map (follows_variableDeclaration span behind) fun _ => rfl)
      next => exact .map otherwise fun _ => rfl

/-- Names between commas follow, by induction on the tokens. -/
theorem follows_parameterNames {sight : Nat} {tokens others : List Token}
    (seen : relocation.Alike sight tokens others) :
    relocation.Follows (List.map (Identifier.relocate relocation.move)) sight tokens others
      (parameterNames relocation.ending tokens) (parameterNames relocation.moved others) := by
  rw [parameterNames, parameterNames]
  refine (follows_identifier seen).andThen fun name rest bounded otherRest _ sight seen => ?_
  cases seen with
  | unseen =>
      -- Nothing behind the name is in sight, whatever stands there.
      refine follows_blind ?_
      split
      · exact Nat.le_refl _
      next token rest _ =>
        split
        · exact Nat.le_trans (Reading.bounded (parameterNames relocation.ending rest))
            (Nat.le_succ_of_le (Nat.sub_le _ _))
        · exact Reading.bounded (expect relocation.ending .rightParen (token :: rest))
  | finish same => exact follows_ended same
  | @cons _ rest _ kind span behind =>
      by_cases comma : kind = .punctuator .comma
      · simp only [if_pos comma]
        exact .cons (.map (follows_parameterNames behind) fun _ => rfl)
      · simp only [if_neg comma]
        exact .map (follows_expect .rightParen (.cons kind span behind)) fun _ => rfl
termination_by tokens.length
decreasing_by simp only [List.length_cons] at *; omega

/-- Parameters in parentheses follow. -/
theorem follows_parameters (seen : relocation.Alike sight tokens others) :
    relocation.Follows (List.map (Identifier.relocate relocation.move)) sight tokens others
      (parameters relocation.ending tokens) (parameters relocation.moved others) := by
  refine (follows_expect .leftParen seen).andThen fun _ rest _ otherRest _ sight seen => ?_
  cases seen with
  | unseen =>
      refine follows_blind ?_
      split
      · exact Reading.bounded (parameterNames relocation.ending [])
      next token rest _ =>
        split
        · exact Nat.le_succ _
        · exact Nat.le_trans (Reading.bounded (parameterNames relocation.ending (token :: rest)))
            (Nat.sub_le _ _)
  | finish same => exact .widen (follows_parameterNames (.finish same))
  | cons kind span behind =>
      by_cases empty : kind = .punctuator .rightParen
      · simp only [if_pos empty]
        exact (follows_accept behind).cons
      · simp only [if_neg empty]
        exact .widen (follows_parameterNames (.cons kind span behind))

/-- Superclasses that may be left out follow. -/
theorem follows_superclass (seen : relocation.Alike sight tokens others) :
    relocation.Follows (Option.map (Identifier.relocate relocation.move)) sight tokens others
      (superclass relocation.ending tokens) (superclass relocation.moved others) := by
  cases seen with
  | unseen => exact follows_unseen (Nat.le_refl _)
  | finish same => exact follows_accept (.finish same)
  | cons kind span behind =>
      by_cases above : kind = .punctuator .less
      · simp only [superclass, if_pos above]
        exact .cons (.map (follows_identifier behind) fun _ => rfl)
      · simp only [superclass, if_neg above]
        exact follows_accept (.cons kind span behind)

mutual

/-- Declarations follow. -/
theorem follows_declaration {sight : Nat} {tokens others : List Token}
    (seen : relocation.Alike sight tokens others) :
    relocation.Follows (Node.relocate relocation.move) sight tokens others
      (declaration relocation.ending tokens) (declaration relocation.moved others) := by
  cases seen with
  | unseen => exact follows_unseen (Nat.sub_le _ _)
  | finish same =>
      rw [declaration, declaration]
      exact follows_statement (.finish same)
  | cons kind span behind =>
      have otherwise := follows_statement (.cons kind span behind)
      rw [declaration, declaration]
      dsimp only
      split
      next => exact .cons (.widen (follows_classDeclaration span behind))
      next => exact .cons (.map (follows_function span behind) fun _ => rfl)
      next => exact .cons (.widen (follows_variableDeclaration span behind))
      next => exact otherwise
termination_by tokens.length * 10 + 1

/-- Statements follow. -/
theorem follows_statement {sight : Nat} {tokens others : List Token}
    (seen : relocation.Alike sight tokens others) :
    relocation.Follows (Node.relocate relocation.move) sight tokens others
      (statement relocation.ending tokens) (statement relocation.moved others) := by
  cases seen with
  | unseen => exact follows_unseen (Nat.sub_le _ _)
  | finish same =>
      rw [statement, statement]
      exact follows_expressionStatement (.finish same)
  | cons kind span behind =>
      have otherwise := follows_expressionStatement (.cons kind span behind)
      rw [statement, statement]
      dsimp only
      split
      next => exact .cons (.map (follows_blockBody behind) fun _ => rfl)
      next => exact .cons (.widen (follows_conditional span behind))
      next => exact .cons (.widen (follows_whileLoop span behind))
      next => exact .cons (.widen (follows_forLoop span behind))
      next => exact .cons (.widen (follows_returnStatement span behind))
      next => exact .cons (.widen (follows_printStatement span behind))
      next => exact otherwise
termination_by tokens.length * 10

/-- Blocks follow. -/
theorem follows_blockBody {sight : Nat} {tokens others : List Token}
    (seen : relocation.Alike sight tokens others) :
    relocation.Follows (Node.relocateAll relocation.move) sight tokens others
      (blockBody relocation.ending tokens) (blockBody relocation.moved others) := by
  rw [blockBody, blockBody]
  refine (follows_declaration seen).andThen fun node rest _ otherRest _ sight seen => ?_
  exact .map (follows_blockRest seen) fun _ => rfl
termination_by tokens.length * 10 + 3

/-- The rest of a block follows. -/
theorem follows_blockRest {sight : Nat} {tokens others : List Token}
    (seen : relocation.Alike sight tokens others) :
    relocation.Follows (Node.relocateAll relocation.move) sight tokens others
      (blockRest relocation.ending tokens) (blockRest relocation.moved others) := by
  cases seen with
  | unseen => exact follows_unseen (Nat.le_refl _)
  | finish same =>
      rw [blockRest, blockRest]
      exact follows_ended same
  | cons kind span behind =>
      rw [blockRest, blockRest]
      dsimp only
      by_cases closing : kind = .punctuator .rightBrace
      · simp only [if_pos closing]
        exact (follows_accept behind).cons
      · simp only [if_neg closing]
        refine (follows_declaration (.cons kind span behind)).andThen
          fun node rest _ otherRest _ sight seen => ?_
        exact .map (follows_blockRest seen) fun _ => rfl
termination_by tokens.length * 10 + 2
decreasing_by all_goals (simp only [List.length_cons] at *; omega)

/-- Conditionals follow. -/
theorem follows_conditional (span : Span) {sight : Nat} {tokens others : List Token}
    (seen : relocation.Alike sight tokens others) :
    relocation.Follows (Node.relocate relocation.move) sight tokens others
      (conditional relocation.ending span tokens)
      (conditional relocation.moved (relocation.move span) others) := by
  rw [conditional, conditional]
  refine (follows_expression seen).andThen fun condition rest _ otherRest _ sight seen => ?_
  refine (follows_statement seen).andThen fun thenBranch rest _ otherRest _ sight seen => ?_
  cases seen with
  | unseen =>
      refine follows_blind ?_
      split
      · exact Nat.le_refl _
      next token rest _ =>
        split
        · exact Nat.le_trans (Reading.bounded (statement relocation.ending rest))
            (Nat.le_succ_of_le (Nat.sub_le _ _))
        · exact Nat.le_refl _
  | finish same => exact follows_accept (.finish same)
  | cons kind place behind =>
      by_cases alternative : kind = .keyword .elseWord
      · simp only [if_pos alternative]
        exact .cons (.map (follows_statement behind) fun _ => rfl)
      · simp only [if_neg alternative]
        exact follows_accept (.cons kind place behind)
termination_by tokens.length * 10 + 1
decreasing_by
  all_goals (try simp only [List.length_cons] at *)
  all_goals omega

/-- While loops follow. -/
theorem follows_whileLoop (span : Span) {sight : Nat} {tokens others : List Token}
    (seen : relocation.Alike sight tokens others) :
    relocation.Follows (Node.relocate relocation.move) sight tokens others
      (whileLoop relocation.ending span tokens)
      (whileLoop relocation.moved (relocation.move span) others) := by
  rw [whileLoop, whileLoop]
  refine (follows_expression seen).andThen fun condition rest _ otherRest _ sight seen => ?_
  exact .map (follows_statement seen) fun _ => rfl
termination_by tokens.length * 10 + 1

/-- For loops follow. -/
theorem follows_forLoop (span : Span) {sight : Nat} {tokens others : List Token}
    (seen : relocation.Alike sight tokens others) :
    relocation.Follows (Node.relocate relocation.move) sight tokens others
      (forLoop relocation.ending span tokens)
      (forLoop relocation.moved (relocation.move span) others) := by
  rw [forLoop, forLoop]
  refine (follows_expect .leftParen seen).andThen fun _ rest _ otherRest _ sight seen => ?_
  refine (follows_forInitializer seen).andThen fun first rest _ otherRest _ sight seen => ?_
  refine (follows_optionalExpression .semicolon seen).andThen
    fun condition rest _ otherRest _ sight seen => ?_
  refine (follows_expect .semicolon seen).andThen fun _ rest _ otherRest _ sight seen => ?_
  refine (follows_optionalExpression .rightParen seen).andThen
    fun increment rest _ otherRest _ sight seen => ?_
  refine (follows_expect .rightParen seen).andThen fun _ rest _ otherRest _ sight seen => ?_
  refine .map (follows_statement seen) fun body => ?_
  cases first <;> rfl
termination_by tokens.length * 10 + 1

/-- Functions follow. -/
theorem follows_function (span : Span) {sight : Nat} {tokens others : List Token}
    (seen : relocation.Alike sight tokens others) :
    relocation.Follows (Function.relocate relocation.move) sight tokens others
      (function relocation.ending span tokens)
      (function relocation.moved (relocation.move span) others) := by
  rw [function, function]
  refine (follows_identifier seen).andThen fun name rest _ otherRest _ sight seen => ?_
  refine (follows_parameters seen).andThen fun names rest _ otherRest _ sight seen => ?_
  refine (follows_expect .leftBrace seen).andThen fun _ rest _ otherRest _ sight seen => ?_
  exact .map (follows_blockBody seen) fun _ => rfl
termination_by tokens.length * 10 + 4

/-- Methods follow. -/
theorem follows_methods {sight : Nat} {tokens others : List Token}
    (seen : relocation.Alike sight tokens others) :
    relocation.Follows (Function.relocateAll relocation.move) sight tokens others
      (methods relocation.ending tokens) (methods relocation.moved others) := by
  cases seen with
  | unseen => exact follows_unseen (Nat.le_refl _)
  | finish same =>
      rw [methods, methods]
      exact follows_ended same
  | cons kind span behind =>
      rw [methods, methods]
      dsimp only
      by_cases closing : kind = .punctuator .rightBrace
      · simp only [if_pos closing]
        exact (follows_accept behind).cons
      · simp only [if_neg closing]
        refine (follows_function span (.cons kind span behind)).andThen
          fun method rest _ otherRest _ sight seen => ?_
        exact .map (follows_methods seen) fun _ => rfl
termination_by tokens.length * 10 + 5
decreasing_by all_goals (simp only [List.length_cons] at *; omega)

/-- Classes follow. -/
theorem follows_classDeclaration (span : Span) {sight : Nat} {tokens others : List Token}
    (seen : relocation.Alike sight tokens others) :
    relocation.Follows (Node.relocate relocation.move) sight tokens others
      (classDeclaration relocation.ending span tokens)
      (classDeclaration relocation.moved (relocation.move span) others) := by
  rw [classDeclaration, classDeclaration]
  refine (follows_identifier seen).andThen fun name rest _ otherRest _ sight seen => ?_
  refine (follows_superclass seen).andThen fun parent rest _ otherRest _ sight seen => ?_
  refine (follows_expect .leftBrace seen).andThen fun _ rest _ otherRest _ sight seen => ?_
  exact .map (follows_methods seen) fun _ => rfl
termination_by tokens.length * 10 + 6

end

/-- What is read as one node of a program follows, in either mode. -/
theorem follows_topLevel (mode : Mode) (seen : relocation.Alike sight tokens others) :
    relocation.Follows (Node.relocate relocation.move) sight tokens others
      (topLevel mode relocation.ending tokens) (topLevel mode relocation.moved others) := by
  cases mode with
  | expression =>
      rw [topLevel, topLevel]
      exact .map (follows_expression seen) fun _ => rfl
  | statement => exact follows_declaration seen

/-- Moved tokens are alike at any sight, if the end moves as well. -/
theorem Relocation.alike_map (same : relocation.moved = relocation.move relocation.ending)
    (sight : Nat) (tokens : List Token) :
    relocation.Alike sight tokens (tokens.map (Token.relocate relocation.move)) := by
  induction tokens generalizing sight with
  | nil =>
      cases sight with
      | zero => exact .unseen
      | succ sight => exact .finish same
  | cons token tokens inductionHypothesis =>
      cases sight with
      | zero => exact .unseen
      | succ sight => exact .cons token.kind token.span (inductionHypothesis sight)

/-- Tokens that are alike up to an end in sight are the moved ones. -/
theorem Relocation.Alike.eq_map (alike : relocation.Alike sight tokens others)
    (reach : tokens.length < sight) : others = tokens.map (Token.relocate relocation.move) := by
  induction alike with
  | unseen => cases reach
  | finish => rfl
  | cons kind span _ inductionHypothesis =>
      rw [inductionHypothesis (Nat.lt_of_succ_lt_succ reach)]
      rfl

/-- Moved tokens are read as the moved nodes, with the moved errors. -/
theorem nodes_relocate (mode : Mode) (same : relocation.moved = relocation.move relocation.ending)
    (tokens : List Token) :
    nodes mode relocation.moved (tokens.map (Token.relocate relocation.move)) =
      ⟨(nodes mode relocation.ending tokens).produced.map (Node.relocate relocation.move),
        (nodes mode relocation.ending tokens).errors.map
          (SyntaxError.relocate relocation.move)⟩ := by
  cases tokens with
  | nil =>
      rw [List.map_nil, nodes, nodes]
      rfl
  | cons token tokens =>
      have seen := alike_map same ((token :: tokens).length + 1) (token :: tokens)
      obtain ⟨shorter, agrees⟩ := follows_topLevel mode seen
      obtain ⟨outcome, _, alike⟩ := agrees (by omega)
      have left := alike.eq_map (by omega)
      have fewer : (topLevel mode relocation.ending (token :: tokens)).rest.length ≤
          tokens.length := Reading.bounded _
      rw [List.map_cons] at outcome left ⊢
      cases result : (topLevel mode relocation.ending (token :: tokens)).outcome with
      | ok node =>
          rw [result] at outcome
          rw [nodes_of_success ⟨result, rfl⟩, nodes_of_success ⟨outcome, left⟩,
            nodes_relocate mode same _]
          rfl
      | error error =>
          rw [result] at outcome
          rw [nodes_of_failure result rfl, nodes_of_failure outcome left,
            nodes_relocate mode same _]
          rfl
termination_by tokens.length

/-- A moved program is read as the moved nodes, with the moved errors. The span just past a
token has to move along with it. -/
theorem program_relocate {move : Span → Span} (after : ∀ span, (move span).after = move span.after)
    (mode : Mode) (tokens : List Token) :
    program mode (tokens.map (Token.relocate move)) =
      ⟨(program mode tokens).produced.map (Node.relocate move),
        (program mode tokens).errors.map (SyntaxError.relocate move)⟩ := by
  cases last : tokens.getLast? with
  | none =>
      obtain rfl := List.getLast?_eq_none_iff.1 last
      rw [List.map_nil, program, nodes]
      rfl
  | some token =>
      have same : endingOf (tokens.map (Token.relocate move)) = move (endingOf tokens) := by
        simp only [endingOf, List.getLast?_map, last, Option.map_some, Token.span_relocate, after]
      exact @nodes_relocate ⟨move, endingOf tokens, _⟩ mode same tokens

end TreeWalk.Grammar
