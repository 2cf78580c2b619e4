import TreeWalk.Proofs.Syntax.Shape
import TreeWalk.Proofs.Syntax.Written

/-!
# First tokens and following tokens

One token decides how reading goes on. `Kind.opensExpression` and `Kind.opensNode` say
which token a written tree begins with, `Tier.Stops` and `Node.Stops` behind which tokens
a reading of the tree ends.
-/

namespace TreeWalk

/-- The kind of the first of the tokens. -/
def Grammar.peek (tokens : List Token) : Option Kind :=
  tokens.head?.map Token.kind

open Grammar

@[simp] theorem Grammar.peek_nil : peek [] = none := rfl

@[simp] theorem Grammar.peek_cons (token : Token) (rest : List Token) :
    peek (token :: rest) = some token.kind := rfl

/-- No token that would go on with an expression of the tier comes next. -/
def Tier.Stops : Tier → List Token → Prop
  | .assignment, rest =>
      peek rest ≠ some (.punctuator .equal) ∧
        ∀ operator : InfixOperator, peek rest ≠ some operator.kind
  | .infixed level, rest =>
      ∀ operator : InfixOperator, peek rest = some operator.kind →
        level.looseness < operator.level.looseness
  | .unary, _ => True
  | .primary, _ => True

/-- No `else` comes next that the node would take. -/
def Node.Stops (node : Node) (rest : List Token) : Prop :=
  node.endsOpen → peek rest ≠ some (.keyword .elseWord)

/-- Whether a token of this kind is the first of some expression. -/
def Kind.opensExpression : Kind → Bool
  | .punctuator .leftParen => true
  | .punctuator .minus => true
  | .punctuator .bang => true
  | kind => kind.isTerminal

/-- Whether a token of this kind is the first of some declaration or statement. -/
def Kind.opensNode : Kind → Bool
  | .punctuator .leftBrace => true
  | .keyword .classWord => true
  | .keyword .funWord => true
  | .keyword .varWord => true
  | .keyword .ifWord => true
  | .keyword .whileWord => true
  | .keyword .forWord => true
  | .keyword .returnWord => true
  | .keyword .printWord => true
  | kind => kind.opensExpression

/-- The operator that the first token is. -/
theorem InfixOperator.ofKind?_of_peek {token : Token} {rest : List Token}
    {operator : InfixOperator} (next : peek (token :: rest) = some operator.kind) :
    InfixOperator.ofKind? token.kind = some operator := by
  have same : token.kind = operator.kind := Option.some.inj next
  rw [same, InfixOperator.ofKind?_kind]

/-- Levels are told apart by their looseness. -/
theorem Level.looseness_injective {first second : Level}
    (same : first.looseness = second.looseness) : first = second := by
  cases first <;> cases second <;> first | rfl | cases same

namespace Tier

variable {rest : List Token}

/-- Tiers are told apart by their looseness. -/
theorem looseness_injective {first second : Tier}
    (same : first.looseness = second.looseness) : first = second := by
  rcases first with _ | level | _ | _ <;> rcases second with _ | other | _ | _ <;>
    simp only [looseness] at same
  case infixed.infixed => rw [Level.looseness_injective (Nat.add_right_cancel same)]
  case assignment.infixed => have := other.looseness_le; omega
  case infixed.assignment => have := level.looseness_le; omega
  all_goals first | rfl | omega

/-- The assignment is the loosest tier. -/
theorem looseness_le_assignment (tier : Tier) : tier.looseness ≤ Tier.assignment.looseness := by
  rcases tier with _ | level | _ | _
  case infixed =>
    have := level.looseness_le
    simp only [looseness]
    omega
  all_goals decide

/-- What fits a tier without being of it fits a tighter one. -/
theorem looseness_lt {first second : Tier} (fits : first.looseness ≤ second.looseness)
    (different : first ≠ second) : first.looseness < second.looseness :=
  Nat.lt_of_le_of_ne fits fun same => different (looseness_injective same)

/-- What ends a level ends the tighter levels, and is no operator of the level itself. -/
theorem Stops.operand {level : Level} (stops : (Tier.infixed level).Stops rest) :
    level.operand.Stops rest := by
  cases level with
  | factor => trivial
  | _ =>
    intro operator next
    have := stops operator next
    simp only [Level.looseness] at this ⊢
    omega

/-- What ends the assignment ends every level. -/
theorem Stops.infixed (stops : Tier.assignment.Stops rest) (level : Level) :
    (Tier.infixed level).Stops rest :=
  fun operator next => absurd next (stops.2 operator)

/-- What ends the operands of a level is no tighter operator. -/
theorem Stops.looseness_le {level : Level} {operator : InfixOperator}
    (stops : level.operand.Stops rest) (next : peek rest = some operator.kind) :
    level.looseness ≤ operator.level.looseness := by
  cases level with
  | factor => exact Nat.zero_le _
  | _ => exact stops operator next

/-- What ends the operands of a level and is no operator of the level ends the level. -/
theorem stops_infixed {level : Level} (stops : level.operand.Stops rest)
    (none : ∀ operator : InfixOperator, peek rest = some operator.kind → operator.level ≠ level) :
    (Tier.infixed level).Stops rest := by
  intro operator next
  have different : level.looseness ≠ operator.level.looseness :=
    fun same => none operator next (Level.looseness_injective same.symm)
  exact Nat.lt_of_le_of_ne (stops.looseness_le next) different

/-- A token that is no operator behind an operand ends every level. -/
theorem stops_infixed_cons {token : Token} (none : InfixOperator.ofKind? token.kind = none)
    (level : Level) : (Tier.infixed level).Stops (token :: rest) := by
  intro operator next
  rw [InfixOperator.ofKind?_of_peek next] at none
  cases none

/-- A token that is neither an operator nor an equals sign ends every tier. -/
theorem stops_cons {token : Token} (none : InfixOperator.ofKind? token.kind = none)
    (different : token.kind ≠ .punctuator .equal) (tier : Tier) :
    tier.Stops (token :: rest) := by
  cases tier with
  | assignment =>
      refine ⟨by simpa using different, fun operator next => ?_⟩
      rw [InfixOperator.ofKind?_of_peek next] at none
      cases none
  | infixed level => exact stops_infixed_cons none level
  | unary => trivial
  | primary => trivial

/-- An operator ends every level tighter than its own. -/
theorem stops_operand_operator (operator : InfixOperator) (span : Span) :
    operator.level.operand.Stops (⟨operator.kind, span⟩ :: rest) := by
  rcases tier : operator.level.operand with _ | level | _ | _
  case infixed =>
    intro other next
    have same : operator = other := by
      have found := InfixOperator.ofKind?_of_peek next
      rw [InfixOperator.ofKind?_kind] at found
      exact Option.some.inj found
    have loose := Level.looseness_operand operator.level
    rw [tier] at loose
    simp only [Tier.looseness] at loose
    subst same
    omega
  case assignment => cases level : operator.level <;> rw [level] at tier <;> cases tier
  all_goals trivial

end Tier

namespace Kind

/-- A token that opens a node is no operator behind an expression, except the minus sign. -/
theorem eq_minus_of_opensNode {operator : InfixOperator}
    (opens : operator.kind.opensNode = true) :
    operator.kind = .punctuator .minus := by
  rcases operator with operator | operator <;> cases operator <;> first | rfl | cases opens

/-- What opens an expression opens a statement. -/
theorem opensNode_of_opensExpression {kind : Kind} (opens : kind.opensExpression = true) :
    kind.opensNode = true := by
  unfold opensNode
  split <;> first | rfl | exact opens

end Kind

/-- In front of what opens a node, only a minus sign goes on with an expression. -/
theorem Tier.stops_assignment_cons {token : Token} {rest : List Token}
    (opens : token.kind.opensNode = true) :
    Tier.assignment.Stops (token :: rest) ↔ token.kind ≠ .punctuator .minus := by
  constructor
  · rintro ⟨_, none⟩ same
    exact none (.binary .sub) (by rw [peek_cons, same]; rfl)
  · intro different
    constructor
    · intro equal
      rw [Option.some.inj equal] at opens
      cases opens
    · intro operator next
      have same : token.kind = operator.kind := Option.some.inj next
      rw [same] at opens
      exact different (same.trans (Kind.eq_minus_of_opensNode opens))

/-- A list of names begins with a name. -/
theorem Identifier.ListWritten.first {names : List Identifier} {tokens : List Token}
    (written : ListWritten names tokens) (nonempty : names ≠ []) :
    ∃ (name : Identifier) (after : List Token), tokens = name.token :: after := by
  cases written with
  | nil => cases nonempty rfl
  | single => exact ⟨_, _, rfl⟩
  | cons => exact ⟨_, _, rfl⟩

/-- The first token of an expression. -/
theorem Expr.Written.first {value : Expr} {tokens : List Token} (written : value.Written tokens)
    (shaped : value.WellShaped) :
    ∃ token rest, tokens = token :: rest ∧ token.kind.opensExpression = true ∧
      (token.kind = .punctuator .minus ↔ value.startsWithMinus = true) := by
  induction written with
  | @terminal token =>
      refine ⟨token, [], rfl, ?_, ?_⟩
      · unfold Kind.opensExpression
        split <;> first | rfl | exact shaped
      · constructor
        · intro minus
          have terminal : token.kind.isTerminal = true := shaped
          rw [minus] at terminal
          cases terminal
        · intro starts
          cases starts
  | group => exact ⟨_, _, rfl, rfl, by simp [startsWithMinus]⟩
  | @unary operator =>
      refine ⟨_, _, rfl, ?_, ?_⟩ <;> cases operator <;>
        simp [startsWithMinus, UnaryOperator.mark, Kind.opensExpression]
  | binary _ _ leftHypothesis | logical _ _ leftHypothesis =>
      obtain ⟨token, rest, rfl, opens, minus⟩ := leftHypothesis shaped.1
      exact ⟨token, _, rfl, opens, minus⟩
  | assign => exact ⟨_, _, rfl, rfl, by simp [startsWithMinus, Identifier.token]⟩

/-- The first token of a node. -/
theorem Node.Written.first {node : Node} {tokens : List Token} (written : node.Written tokens)
    (shaped : node.WellShaped) :
    ∃ token rest, tokens = token :: rest ∧ token.kind.opensNode = true ∧
      (token.kind = .punctuator .minus ↔ node.startsWithMinus = true) := by
  cases written with
  | expression => cases shaped
  | expressionStatement _ stated =>
      obtain ⟨token, rest, rfl, opens, minus⟩ := stated.first shaped.1
      exact ⟨token, _, rfl, Kind.opensNode_of_opensExpression opens, minus⟩
  | _ => exact ⟨_, _, rfl, rfl, by simp [startsWithMinus]⟩

end TreeWalk
