import TreeWalk.Proofs.Grammar.Locality
import TreeWalk.Proofs.Grammar.Progress

/-!
# One token of lookahead

A rule decides by the tokens that it takes and by the one behind them. Whatever stands behind
that one, the rule makes the same phrase or the same error and takes as many tokens. Where the
tokens end makes a difference only to a rule that takes all of them.
-/

namespace TreeWalk

namespace Grammar

open Relocation

/-- The phrase with every span moved. -/
def Phrase.relocate (move : Span → Span) : Phrase → Phrase
  | .expression value => .expression (value.relocate move)
  | .node read => .node (read.relocate move)
  | .nodes body => .nodes (Node.relocateAll move body)

variable {sight taken : Nat} {tokens others : List Token} {ending moved : Span}

/-- Rules follow. -/
theorem Rule.follows_read {relocation : Relocation} (rule : Rule)
    (seen : relocation.Alike sight tokens others) :
    relocation.Follows (Phrase.relocate relocation.move) sight tokens others
      (rule.read relocation.ending tokens) (rule.read relocation.moved others) := by
  cases rule <;> rw [read, read]
  case expression => exact (follows_expression seen).map fun _ => rfl
  case expressionOf tier => exact (follows_expressionOf tier seen).map fun _ => rfl
  case declaration => exact (follows_declaration seen).map fun _ => rfl
  case statement => exact (follows_statement seen).map fun _ => rfl
  case blockBody => exact (follows_blockBody seen).map fun _ => rfl

/-- Lists with the same tokens in front are alike as far as these go, if an end that is met there
is reported at the same place. -/
theorem Relocation.alike_of_take_eq (same : others.take sight = tokens.take sight)
    (ends : tokens.length < sight → moved = ending) :
    Alike ⟨id, ending, moved⟩ sight tokens others := by
  induction sight generalizing tokens others with
  | zero => exact .unseen
  | succ sight inductionHypothesis =>
      cases tokens with
      | nil =>
          rw [List.take_nil, List.take_eq_nil_iff] at same
          obtain rfl := same.resolve_left (Nat.succ_ne_zero sight)
          exact .finish (ends (Nat.succ_pos sight))
      | cons token tokens =>
          cases others with
          | nil => cases same
          | cons other others =>
              rw [List.take_succ_cons, List.take_succ_cons, List.cons.injEq] at same
              obtain ⟨rfl, behind⟩ := same
              exact .cons other.kind other.span
                (inductionHypothesis behind fun short => ends (Nat.succ_lt_succ short))

/-- What a rule reads is the same after moving every span nowhere. -/
theorem Rule.relocate_id_read (rule : Rule) (ending : Span) (tokens : List Token) :
    ((rule.read ending tokens).outcome.map (Phrase.relocate id)).mapError
      (SyntaxError.relocate id) = (rule.read ending tokens).outcome := by
  -- Tokens that are moved nowhere are the tokens themselves, and reading follows them.
  have seen : Alike ⟨id, ending, ending⟩ (tokens.length + 1) tokens tokens :=
    alike_of_take_eq rfl fun _ => rfl
  exact ((rule.follows_read seen).agrees (by omega)).1.symm

/-- On tokens that begin with those that a rule takes and the one behind them, the rule does what
it does on the others. -/
theorem Rule.read_of_take_eq (rule : Rule)
    (took : tokens.length = taken + (rule.read ending tokens).rest.length)
    (same : others.take (taken + 1) = tokens.take (taken + 1))
    (ends : tokens.length = taken → moved = ending) :
    (rule.read moved others).outcome = (rule.read ending tokens).outcome ∧
      (rule.read moved others).rest = others.drop taken := by
  have seen : Alike ⟨id, ending, moved⟩ (taken + 1) tokens others :=
    alike_of_take_eq same fun short => ends (by omega)
  obtain ⟨outcome, asMany, _⟩ := (rule.follows_read seen).agrees (by dsimp only; omega)
  dsimp only at outcome asMany
  obtain ⟨front, whole, _⟩ := rule.accounts_read moved others
  have length : front.length = taken := by
    have total := congrArg List.length whole
    rw [List.length_append] at total
    omega
  refine ⟨outcome.trans (rule.relocate_id_read ending tokens), ?_⟩
  calc (rule.read moved others).rest
    _ = (front ++ (rule.read moved others).rest).drop front.length := List.drop_left.symm
    _ = others.drop taken := by rw [← whole, length]

/-- One token of lookahead. A rule that ends behind so many tokens, with a phrase or an error, ends
there with the same phrase or error on any other tokens that begin with these and the one behind
them, and on no others if there is none behind them. -/
theorem one_token_of_lookahead (rule : Rule) {tokens others : List Token}
    {outcome : Except SyntaxError Phrase} {after : Cursor}
    (ends : rule.run (.start tokens) = (outcome, after))
    (same : others.take (after.position + 1) = tokens.take (after.position + 1)) :
    rule.run (.start others) =
      (outcome, ⟨others.drop after.position, after.position, endingOf others⟩) := by
  rw [Rule.run, Prod.mk.injEq] at ends
  obtain ⟨rfl, rfl⟩ := ends
  generalize stop : ((Cursor.start tokens).moveTo _).position = taken at same ⊢
  have bounded := (rule.read (endingOf tokens) tokens).bounded
  have took : tokens.length = taken + (rule.read (endingOf tokens) tokens).rest.length := by
    rw [← stop]
    simp only [Cursor.moveTo, Cursor.start]
    omega
  have lengths := congrArg List.length same
  rw [List.length_take, List.length_take] at lengths
  -- Where the rule saw the end, no other tokens have the same front.
  have ends : tokens.length = taken → endingOf others = endingOf tokens := by
    intro all
    rw [List.take_of_length_le (by omega), List.take_of_length_le (by omega)] at same
    rw [same]
  obtain ⟨outcome, rest⟩ := rule.read_of_take_eq took same ends
  have moved : (Cursor.start others).moveTo (others.drop taken) =
      ⟨others.drop taken, taken, endingOf others⟩ := by
    simp only [Cursor.moveTo, Cursor.start, List.length_drop, Cursor.mk.injEq, true_and, and_true]
    omega
  refine Prod.ext outcome ?_
  rw [← moved, ← rest]
  rfl

/-- Behind `print 1` a parenthesis is missed for the semicolon, whatever stands behind it. -/
theorem one_token_of_lookahead_parenthesis :
    let tokens := (scan "print 1 ) ;").produced
    let others := (scan "print 1 ) + 2 ; print 3").produced
    (Rule.declaration.run (.start tokens)).2.position = 2 ∧ others.take 3 = tokens.take 3 ∧
      Rule.declaration.run (.start others) =
        ((Rule.declaration.run (.start tokens)).1, ⟨others.drop 2, 2, ⟨1, 23, 0⟩⟩) := by
  intro tokens others
  have stop : (Rule.declaration.run (.start tokens)).2.position = 2 := by decide +kernel
  have same : others.take 3 = tokens.take 3 := by decide +kernel
  have ending : endingOf others = ⟨1, 23, 0⟩ := by decide +kernel
  have ends : Rule.declaration.run (.start tokens) =
      ((Rule.declaration.run (.start tokens)).1, (Rule.declaration.run (.start tokens)).2) := rfl
  have sameFront : others.take ((Rule.declaration.run (.start tokens)).2.position + 1) =
      tokens.take ((Rule.declaration.run (.start tokens)).2.position + 1) := by
    rw [stop]
    exact same
  have read := one_token_of_lookahead Rule.declaration ends sameFront
  rw [stop, ending] at read
  exact ⟨stop, same, read⟩

end Grammar

end TreeWalk
