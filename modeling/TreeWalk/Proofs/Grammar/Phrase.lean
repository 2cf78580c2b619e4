import TreeWalk.Grammar.Rule
import TreeWalk.Proofs.Grammar.Account
import TreeWalk.Proofs.Grammar.Node

/-!
# Reading inverts writing

A rule run at a cursor makes a phrase exactly of the tokens that the phrase is written as,
and a program is read stretch by stretch. The equivalence `Rule.succeeds_read` collects
what the modules before this one say of each rule.
-/

namespace TreeWalk

namespace Grammar

/-- The tokens of a phrase. The nodes of a block take its closing brace with them. -/
def Phrase.Written : Phrase → List Token → Prop
  | .expression value, tokens => value.Written tokens
  | .node read, tokens => read.Written tokens
  | .nodes body, tokens =>
      ∃ inside finish, Node.AllWritten body inside ∧
        tokens = inside ++ [⟨.punctuator .rightBrace, finish⟩]

namespace Rule

/-- The well-shaped phrases of a rule. -/
def Allows : Rule → Phrase → Prop
  | expression, .expression value => value.WellShaped
  | expressionOf tier, .expression value =>
      value.WellShaped ∧ value.tier.looseness ≤ tier.looseness
  | declaration, .node node => node.WellShaped
  | statement, .node node => node.WellShaped ∧ node.isStatement
  | blockBody, .nodes nodes => nodes ≠ [] ∧ Node.AllWellShaped nodes
  | _, _ => False

/-- The phrase that a rule made does not go on with the tokens. -/
def Stops : Rule → Phrase → List Token → Prop
  | expression, _, rest => Tier.assignment.Stops rest
  | expressionOf tier, _, rest => tier.Stops rest
  | _, .node node, rest => node.Stops rest
  | _, _, _ => True

variable {ending : Span} {rule : Rule} {phrase : Phrase} {tokens rest : List Token}

/-- A rule makes a phrase exactly of the written form of a well-shaped phrase of its own,
in front of tokens that the phrase does not go on with. -/
theorem succeeds_read :
    (rule.read ending tokens).Succeeds phrase rest ↔
      rule.Allows phrase ∧ rule.Stops phrase rest ∧
        ∃ consumed, phrase.Written consumed ∧ tokens = consumed ++ rest := by
  cases rule with
  | expression =>
      rw [read, Reading.succeeds_map]
      simp only [succeeds_condition]
      constructor
      · rintro ⟨value, ⟨shaped, stops, written⟩, rfl⟩
        exact ⟨shaped, stops, written⟩
      · rintro ⟨shaped, stops, written⟩
        cases phrase with
        | expression value => exact ⟨value, ⟨shaped, stops, written⟩, rfl⟩
        | node | nodes => cases shaped
  | expressionOf tier =>
      rw [read, Reading.succeeds_map]
      simp only [succeeds_expressionOf]
      constructor
      · rintro ⟨value, ⟨shaped, fits, stops, written⟩, rfl⟩
        exact ⟨⟨shaped, fits⟩, stops, written⟩
      · rintro ⟨allowed, stops, written⟩
        cases phrase with
        | expression value => exact ⟨value, ⟨allowed.1, allowed.2, stops, written⟩, rfl⟩
        | node | nodes => cases allowed
  | declaration =>
      rw [read, Reading.succeeds_map]
      simp only [succeeds_declaration]
      constructor
      · rintro ⟨node, ⟨shaped, stops, written⟩, rfl⟩
        exact ⟨shaped, stops, written⟩
      · rintro ⟨shaped, stops, written⟩
        cases phrase with
        | node node => exact ⟨node, ⟨shaped, stops, written⟩, rfl⟩
        | expression | nodes => cases shaped
  | statement =>
      rw [read, Reading.succeeds_map]
      simp only [succeeds_statement]
      constructor
      · rintro ⟨node, ⟨statement, shaped, stops, written⟩, rfl⟩
        exact ⟨⟨shaped, statement⟩, stops, written⟩
      · rintro ⟨allowed, stops, written⟩
        cases phrase with
        | node node => exact ⟨node, ⟨allowed.2, allowed.1, stops, written⟩, rfl⟩
        | expression | nodes => cases allowed
  | blockBody =>
      rw [read, Reading.succeeds_map]
      simp only [succeeds_blockBody]
      constructor
      · rintro ⟨nodes, ⟨nonempty, shaped, inside, finish, written, rfl⟩, rfl⟩
        exact ⟨⟨nonempty, shaped⟩, trivial, _, ⟨inside, finish, written, rfl⟩, by simp⟩
      · rintro ⟨allowed, _, _, written, rfl⟩
        cases phrase with
        | nodes nodes =>
            obtain ⟨inside, finish, written, rfl⟩ := written
            exact ⟨nodes, ⟨allowed.1, allowed.2, inside, finish, written, by simp⟩, rfl⟩
        | expression | node => cases allowed

/-- Run at a cursor, the rule moves the cursor over the tokens of the phrase. -/
theorem run_eq_ok_iff {cursor after : Cursor} :
    rule.run cursor = (.ok phrase, after) ↔
      rule.Allows phrase ∧ rule.Stops phrase after.ahead ∧
        ∃ consumed, phrase.Written consumed ∧ cursor.ahead = consumed ++ after.ahead ∧
          after.position = cursor.position + consumed.length ∧ after.ending = cursor.ending := by
  have read : rule.run cursor = (.ok phrase, after) ↔
      (rule.read cursor.ending cursor.ahead).Succeeds phrase after.ahead ∧
        after = cursor.moveTo after.ahead := by
    rw [run, Prod.mk.injEq]
    constructor
    · rintro ⟨outcome, rfl⟩
      exact ⟨⟨outcome, rfl⟩, rfl⟩
    · rintro ⟨⟨outcome, left⟩, moved⟩
      rw [left]
      exact ⟨outcome, moved.symm⟩
  rw [read, succeeds_read]
  obtain ⟨ahead, position, ending⟩ := after
  constructor
  · rintro ⟨⟨allowed, stops, consumed, written, whole⟩, moved⟩
    refine ⟨allowed, stops, consumed, written, whole, ?_⟩
    simp only [Cursor.moveTo, Cursor.mk.injEq, true_and] at moved
    obtain ⟨rfl, rfl⟩ := moved
    simp [whole]
  · rintro ⟨allowed, stops, consumed, written, whole, moved, same⟩
    refine ⟨⟨allowed, stops, consumed, written, whole⟩, ?_⟩
    simp_all [Cursor.moveTo]

end Rule

end Grammar

end TreeWalk
