import TreeWalk.Proofs.Grammar.Success
import TreeWalk.Proofs.Grammar.Follow

/-!
# What expressions are read from

A rule for expressions succeeds exactly on the written form of a well-shaped expression
of its tier, with a token behind it that ends the tier. `reads_of_expressionOf` follows
the recursion of the rules, `expressionOf_of_reads` the structure of the expression.
-/

namespace TreeWalk

/-- The tokens are those of a well-shaped expression of the tier and then the rest. -/
structure Tier.Reads (tier : Tier) (tokens : List Token) (value : Expr) (rest : List Token) :
    Prop where
  shaped : value.WellShaped
  fits : value.tier.looseness ≤ tier.looseness
  stops : tier.Stops rest
  written : ∃ consumed, value.Written consumed ∧ tokens = consumed ++ rest

namespace InfixOperator

variable {operator : InfixOperator} {left right : Expr} {span : Span}

/-- The right operand is an operand of the level. -/
theorem Takes.right_operand (taken : operator.Takes left right) :
    right.tier.looseness ≤ operator.level.operand.looseness := by
  rw [operator.level.looseness_operand]
  exact Nat.le_of_lt_succ taken.right

/-- An operation is of the tier of its operator. -/
@[simp] theorem tier_combine : (operator.combine left right span).tier = operator.tier := by
  cases operator <;> rfl

/-- An operation is well-shaped if its operands are, and the operator takes them. -/
theorem wellShaped_combine :
    (operator.combine left right span).WellShaped ↔
      left.WellShaped ∧ right.WellShaped ∧ operator.Takes left right := by
  cases operator <;> rfl

/-- An operation is written with its operator between its operands. -/
theorem written_combine {before behind : List Token} (first : left.Written before)
    (second : right.Written behind) :
    (operator.combine left right span).Written (before ++ ⟨operator.kind, span⟩ :: behind) := by
  cases operator with
  | binary operator => exact .binary first second
  | logical operator => exact .logical first second

end InfixOperator

/-- The operator in front of an operand, by its token. -/
theorem UnaryOperator.mark_of_ofKind? {kind : Kind} {operator : UnaryOperator}
    (found : ofKind? kind = some operator) : kind = .punctuator operator.mark := by
  unfold ofKind? at found
  split at found <;> cases found <;> rfl

/-- A terminal is no operator. -/
theorem Kind.not_operator_of_isTerminal {kind : Kind} (terminal : kind.isTerminal = true) :
    UnaryOperator.ofKind? kind = none := by
  unfold UnaryOperator.ofKind?
  split <;> first | rfl | cases terminal

/-- A primary expression does not begin with an operator. -/
theorem Expr.Written.first_of_primary {value : Expr} {tokens : List Token}
    (written : value.Written tokens) (shaped : value.WellShaped)
    (primary : value.tier = .primary) :
    ∃ token rest, tokens = token :: rest ∧ UnaryOperator.ofKind? token.kind = none := by
  cases written with
  | terminal => exact ⟨_, _, rfl, Kind.not_operator_of_isTerminal shaped⟩
  | group => exact ⟨_, _, rfl, rfl⟩
  | unary | binary | logical | assign => cases primary

/-- The variable of an expression is a terminal of its own. -/
theorem Expr.eq_terminal_of_name {value : Expr} {name : Identifier}
    (found : value.variable? = some name) : value = .terminal name.token := by
  unfold Expr.variable? at found
  split at found
  · cases found
    rfl
  · cases found

/-- A looser tier holds the expressions of a tighter one. -/
theorem Level.looseness_operand_lt (level : Level) :
    level.operand.looseness < (Tier.infixed level).looseness := by
  rw [level.looseness_operand]
  exact Nat.lt_succ_self _

namespace Grammar

variable {ending : Span}

mutual

/-- What a rule for expressions succeeded on. -/
theorem reads_of_expressionOf {value : Expr} {rest : List Token} :
    (tier : Tier) → (tokens : List Token) →
      (expressionOf ending tier tokens).Succeeds value rest → tier.Reads tokens value rest
  | .assignment, tokens, success => by
      rw [expressionOf] at success
      obtain ⟨target, middle, bounded, first, success⟩ := Reading.succeeds_andThen.1 success
      have left := reads_of_expressionOf (.infixed .disjunction) tokens first
      obtain ⟨before, writtenLeft, whole⟩ := left.written
      have loose : target.tier.looseness ≤ Tier.assignment.looseness :=
        Nat.le_trans left.fits (by decide)
      rcases middle with _ | ⟨token, middle⟩
      · obtain ⟨rfl, rfl⟩ := Reading.succeeds_accept.1 success
        exact ⟨left.shaped, loose, by simp [Tier.Stops], before, writtenLeft, whole⟩
      · have shorter : middle.length + 1 ≤ tokens.length - 1 := first.length_le
        simp only at success
        split at success
        next equal =>
          obtain ⟨assigned, after, _, second, success⟩ := Reading.succeeds_andThen.1 success
          have right := reads_of_expressionOf .assignment middle second
          obtain ⟨behind, writtenRight, rfl⟩ := right.written
          split at success
          next name found =>
            obtain ⟨rfl, rfl⟩ := Reading.succeeds_accept.1 success
            obtain rfl := Expr.eq_terminal_of_name found
            cases writtenLeft
            obtain ⟨kind, span⟩ := token
            cases equal
            exact ⟨right.shaped, Nat.le_refl _, right.stops, _, .assign writtenRight, whole⟩
          next => cases Reading.not_succeeds_reject success
        next different =>
          obtain ⟨rfl, rfl⟩ := Reading.succeeds_accept.1 success
          refine ⟨left.shaped, loose, ⟨by simpa using different, ?_⟩, before, writtenLeft, whole⟩
          -- No operator comes next either: the disjunction in front would have taken it.
          intro operator next
          exact absurd (left.stops operator next) (Nat.not_lt.2 operator.level.looseness_le)
  | .infixed level, tokens, success => by
      rw [expressionOf] at success
      obtain ⟨left, middle, bounded, first, success⟩ := Reading.succeeds_andThen.1 success
      obtain ⟨shaped, fits, stops, consumed, written, whole⟩ :=
        reads_of_expressionOf level.operand tokens first
      rw [whole]
      exact reads_of_operationsOf level left middle (Reading.succeeds_widen.1 success) shaped
        (Nat.le_of_lt (Nat.lt_of_le_of_lt fits level.looseness_operand_lt)) stops written
  | .unary, [], success => by
      rw [expressionOf] at success
      have inner := reads_of_expressionOf .primary [] success
      exact ⟨inner.shaped, Nat.le_succ_of_le inner.fits, trivial, inner.written⟩
  | .unary, token :: after, success => by
      rw [expressionOf] at success
      split at success
      next operator found =>
        obtain ⟨operand, behind, rfl⟩ := Reading.succeeds_map.1 success
        obtain ⟨shaped, fits, _, consumed, written, rfl⟩ :=
          reads_of_expressionOf .unary after behind
        refine ⟨⟨shaped, fits⟩, Nat.le_refl _, trivial, _, .unary written, ?_⟩
        rw [← UnaryOperator.mark_of_ofKind? found]
        rfl
      next =>
        have inner := reads_of_expressionOf .primary (token :: after) success
        exact ⟨inner.shaped, Nat.le_succ_of_le inner.fits, trivial, inner.written⟩
  | .primary, [], success => by
      rw [expressionOf] at success
      cases Reading.not_succeeds_reject success
  | .primary, token :: after, success => by
      rw [expressionOf] at success
      split at success
      next terminal =>
        obtain ⟨rfl, rfl⟩ := Reading.succeeds_accept.1 success
        exact ⟨terminal, Nat.le_refl _, trivial, _, .terminal, rfl⟩
      next =>
        split at success
        next opening =>
          obtain ⟨inner, middle, bounded, first, success⟩ := Reading.succeeds_andThen.1 success
          obtain ⟨⟨closing, rfl⟩, rfl⟩ := succeeds_map_expect.1 success
          obtain ⟨shaped, _, _, consumed, written, rfl⟩ :=
            reads_of_expressionOf .assignment after first
          obtain ⟨kind, span⟩ := token
          cases opening
          exact ⟨shaped, Nat.le_refl _, trivial, _, .group closing written, by simp⟩
        next => cases Reading.not_succeeds_reject success
termination_by tier tokens => tokens.length * 10 + tier.looseness
decreasing_by
  all_goals have : Level.disjunction.looseness = 5 := rfl
  all_goals (try rw [Level.looseness_operand])
  all_goals simp only [List.length_cons, Tier.looseness]
  all_goals omega

/-- What the operators of a level and their operands were read from, behind what was read
before them. -/
theorem reads_of_operationsOf {value : Expr} {rest before : List Token} :
    (level : Level) → (left : Expr) → (tokens : List Token) →
      (operationsOf ending level left tokens).Succeeds value rest →
      left.WellShaped → left.tier.looseness ≤ (Tier.infixed level).looseness →
      level.operand.Stops tokens → left.Written before →
      (Tier.infixed level).Reads (before ++ tokens) value rest
  | level, left, [], success, shaped, fits, _, written => by
      rw [operationsOf] at success
      obtain ⟨rfl, rfl⟩ := Reading.succeeds_accept.1 success
      exact ⟨shaped, fits, by simp [Tier.Stops], before, written, rfl⟩
  | level, left, token :: tokens, success, shaped, fits, stops, written => by
      rw [operationsOf] at success
      split at success
      next operator found =>
        split at success
        next same =>
          obtain ⟨right, middle, bounded, first, success⟩ := Reading.succeeds_andThen.1 success
          obtain ⟨shapedRight, fitsRight, stopsRight, consumed, writtenRight, whole⟩ :=
            reads_of_expressionOf level.operand tokens first
          subst same
          have taken : operator.Takes left right :=
            ⟨fits, Nat.lt_of_le_of_lt fitsRight operator.level.looseness_operand_lt⟩
          -- What has been put together so far is the left operand of the operators behind it.
          have reads := reads_of_operationsOf operator.level
            (operator.combine left right token.span) middle (Reading.succeeds_widen.1 success)
            (InfixOperator.wellShaped_combine.2 ⟨shaped, shapedRight, taken⟩)
            (by rw [InfixOperator.tier_combine]; exact Nat.le_refl _) stopsRight
            (InfixOperator.written_combine written writtenRight)
          rw [InfixOperator.kind_of_ofKind? found] at reads
          simpa [whole] using reads
        next different =>
          obtain ⟨rfl, rfl⟩ := Reading.succeeds_accept.1 success
          refine ⟨shaped, fits, Tier.stops_infixed stops ?_, before, written, rfl⟩
          intro other next
          rw [InfixOperator.ofKind?_of_peek next] at found
          cases found
          exact different
      next absent =>
        obtain ⟨rfl, rfl⟩ := Reading.succeeds_accept.1 success
        refine ⟨shaped, fits, Tier.stops_infixed stops ?_, before, written, rfl⟩
        intro other next
        rw [InfixOperator.ofKind?_of_peek next] at absent
        cases absent
termination_by _ _ tokens => tokens.length * 10
decreasing_by
  all_goals have := level.looseness_le
  all_goals simp only [List.length_cons, Level.looseness_operand]
  all_goals omega

end

/-- The written form of the value is read as the value, whatever ends the tier behind it. -/
def ReadsBack (ending : Span) (tier : Tier) (value : Expr) (tokens : List Token) : Prop :=
  ∀ rest, tier.Stops rest → (expressionOf ending tier (tokens ++ rest)).Succeeds value rest

/-- Reading the level from the written form of the value is reading on with the value as
left operand. -/
def Resumes (ending : Span) (level : Level) (value : Expr) (tokens : List Token) : Prop :=
  ∀ rest result after, level.operand.Stops rest →
    (operationsOf ending level value rest).Succeeds result after →
    (expressionOf ending (.infixed level) (tokens ++ rest)).Succeeds result after

section ReadsBack

variable {value left right : Expr} {tokens before behind rest after : List Token} {level : Level}

/-- Where a level ends, no operator of it is read. -/
theorem operationsOf_of_stops (stops : (Tier.infixed level).Stops rest) :
    (operationsOf ending level value rest).Succeeds value rest := by
  rcases rest with _ | ⟨token, rest⟩
  · rw [operationsOf]
    exact Reading.succeeds_accept.2 ⟨rfl, rfl⟩
  · rw [operationsOf]
    split
    next operator found =>
      have next : peek (token :: rest) = some operator.kind := by
        rw [InfixOperator.kind_of_ofKind? found, peek_cons]
      have different : operator.level ≠ level := by
        intro same
        have loose := stops operator next
        rw [same] at loose
        exact Nat.lt_irrefl _ loose
      rw [if_neg different]
      exact Reading.succeeds_accept.2 ⟨rfl, rfl⟩
    next => exact Reading.succeeds_accept.2 ⟨rfl, rfl⟩

/-- An operator of the level and its right operand are read onto the left operand. -/
theorem operationsOf_operator {operator : InfixOperator} {span : Span} {result : Expr}
    {middle : List Token}
    (operand : (expressionOf ending operator.level.operand rest).Succeeds right middle)
    (others : (operationsOf ending operator.level (operator.combine left right span)
      middle).Succeeds result after) :
    (operationsOf ending operator.level left (⟨operator.kind, span⟩ :: rest)).Succeeds
      result after := by
  rw [operationsOf]
  simp only [InfixOperator.ofKind?_kind, if_pos]
  exact operand.andThen fun _ => Reading.succeeds_widen.2 others

/-- An operand that reads back can also be the left operand of what follows. -/
theorem Resumes.of_operand (operand : ReadsBack ending level.operand value tokens) :
    Resumes ending level value tokens := by
  intro rest result after stops others
  rw [expressionOf]
  exact (operand rest stops).andThen fun _ => Reading.succeeds_widen.2 others

/-- What can be the left operand of what follows reads back where nothing follows. -/
theorem Resumes.readsBack (resumes : Resumes ending level value tokens) :
    ReadsBack ending (.infixed level) value tokens :=
  fun rest stops => resumes rest value rest stops.operand (operationsOf_of_stops stops)

/-- What reads back on the loosest level reads back as an assignment, as no equals sign follows. -/
theorem ReadsBack.assignment (loosest : ReadsBack ending (.infixed .disjunction) value tokens) :
    ReadsBack ending .assignment value tokens := by
  intro rest stops
  rw [expressionOf]
  refine (loosest rest (stops.infixed _)).andThen fun _ => ?_
  rcases rest with _ | ⟨token, rest⟩
  · exact Reading.succeeds_accept.2 ⟨rfl, rfl⟩
  · have different : token.kind ≠ .punctuator .equal := fun equal => stops.1 (by simp [equal])
    simp only [if_neg different]
    exact Reading.succeeds_accept.2 ⟨rfl, rfl⟩

/-- A primary expression reads back as a unary one, as no unary operator opens it. -/
theorem ReadsBack.unary (shaped : value.WellShaped) (written : value.Written tokens)
    (primary : value.tier = .primary) (tightest : ReadsBack ending .primary value tokens) :
    ReadsBack ending .unary value tokens := by
  intro rest stops
  have first := tightest rest trivial
  obtain ⟨token, after, rfl, none⟩ := written.first_of_primary shaped primary
  rw [List.cons_append] at first ⊢
  rw [expressionOf]
  simp only [none]
  exact first

/-- An expression that reads back at its own tier reads back at every looser one. -/
theorem ReadsBack.of_le (shaped : value.WellShaped) (written : value.Written tokens)
    (own : ReadsBack ending value.tier value tokens) (tier : Tier)
    (fits : value.tier.looseness ≤ tier.looseness) : ReadsBack ending tier value tokens := by
  by_cases same : value.tier = tier
  · rw [← same]
    exact own
  have tighter := Tier.looseness_lt fits same
  match tier with
  | .assignment =>
      have inner := of_le shaped written own (.infixed .disjunction) (Nat.le_of_lt_succ tighter)
      exact inner.assignment
  | .infixed level =>
      refine (Resumes.of_operand (of_le shaped written own level.operand ?_)).readsBack
      rw [level.looseness_operand]
      exact Nat.le_of_lt_succ tighter
  | .unary =>
      have primary : value.tier = .primary :=
        Tier.looseness_injective (Nat.le_zero.1 (Nat.le_of_lt_succ tighter))
      rw [primary] at own
      exact own.unary shaped written primary
  | .primary => cases tighter
termination_by tier.looseness
decreasing_by
  · decide
  · exact level.looseness_operand_lt

/-- A literal or a variable reads back. -/
theorem ReadsBack.terminal {token : Token} (terminal : token.kind.isTerminal = true) :
    ReadsBack ending .primary (.terminal token) [token] := by
  intro rest _
  rw [List.cons_append, expressionOf, if_pos terminal]
  exact Reading.succeeds_accept.2 ⟨rfl, rfl⟩

/-- An expression in parentheses reads back if the one inside does. -/
theorem ReadsBack.group {opening closing : Span}
    (inside : ReadsBack ending .assignment value tokens) :
    ReadsBack ending .primary (.group value opening)
      (⟨.punctuator .leftParen, opening⟩ :: tokens ++ [⟨.punctuator .rightParen, closing⟩]) := by
  intro rest _
  have stops : Tier.assignment.Stops (⟨.punctuator .rightParen, closing⟩ :: rest) :=
    Tier.stops_cons rfl (by simp) _
  have first := inside _ stops
  rw [List.append_assoc, List.cons_append, expressionOf, if_neg nofun, if_pos rfl]
  exact first.andThen fun _ => succeeds_map_expect.2 ⟨⟨closing, rfl⟩, rfl⟩

/-- An expression behind a unary operator reads back if its operand does. -/
theorem ReadsBack.operator {operator : UnaryOperator} {span : Span}
    (operand : ReadsBack ending .unary value tokens) :
    ReadsBack ending .unary (.unary operator value span)
      (⟨.punctuator operator.mark, span⟩ :: tokens) := by
  intro rest _
  rw [List.cons_append, expressionOf]
  cases operator <;> exact Reading.succeeds_map.2 ⟨value, operand rest trivial, rfl⟩

/-- An assignment reads back if what is assigned does. -/
theorem ReadsBack.assign {target : Identifier} {span : Span}
    (assigned : ReadsBack ending .assignment value tokens) :
    ReadsBack ending .assignment (.assign target value span)
      (target.token :: ⟨.punctuator .equal, span⟩ :: tokens) := by
  intro rest stops
  have shaped : (Expr.terminal target.token).WellShaped := rfl
  have own : ReadsBack ending .primary (.terminal target.token) [target.token] := .terminal shaped
  have name := own.of_le shaped .terminal (.infixed .disjunction) (Nat.zero_le _)
  have first := name (⟨.punctuator .equal, span⟩ :: (tokens ++ rest))
    (Tier.stops_infixed_cons rfl _)
  rw [List.cons_append, List.cons_append, expressionOf]
  refine first.andThen fun _ => ?_
  simp only [if_pos]
  exact (assigned rest stops).andThen fun _ => Reading.succeeds_accept.2 ⟨rfl, rfl⟩

/-- An expression reads back at its own tier, and on the level of its own operator it can
also be the left operand of what follows. -/
structure Recovered (ending : Span) (value : Expr) (tokens : List Token) : Prop where
  own : ReadsBack ending value.tier value tokens
  resumes : ∀ level, value.tier = .infixed level → Resumes ending level value tokens

/-- On a looser level an expression is an operand of its own. -/
theorem Recovered.resumes_of_fits (recovered : Recovered ending value tokens)
    (shaped : value.WellShaped) (written : value.Written tokens)
    (fits : value.tier.looseness ≤ (Tier.infixed level).looseness) :
    Resumes ending level value tokens := by
  by_cases same : value.tier = .infixed level
  · exact recovered.resumes level same
  · have tighter := Tier.looseness_lt fits same
    refine .of_operand (recovered.own.of_le shaped written level.operand ?_)
    rw [level.looseness_operand]
    exact Nat.le_of_lt_succ tighter

/-- An operator goes on from its left operand. -/
theorem Recovered.combine (operator : InfixOperator) {span : Span}
    (first : Resumes ending operator.level left before)
    (second : ReadsBack ending operator.level.operand right behind) :
    Recovered ending (operator.combine left right span)
      (before ++ ⟨operator.kind, span⟩ :: behind) := by
  have resumes : Resumes ending operator.level (operator.combine left right span)
      (before ++ ⟨operator.kind, span⟩ :: behind) := by
    intro rest result after stops others
    rw [List.append_assoc, List.cons_append]
    exact first _ result after (Tier.stops_operand_operator operator span)
      (operationsOf_operator (second rest stops) others)
  constructor
  · rw [InfixOperator.tier_combine]
    exact resumes.readsBack
  · intro level same
    rw [InfixOperator.tier_combine] at same
    cases same
    exact resumes

/-- Every well-shaped expression is recovered from its written form. -/
theorem recovered_of_written (written : value.Written tokens) (shaped : value.WellShaped) :
    Recovered ending value tokens := by
  induction written with
  | terminal => exact ⟨.terminal shaped, nofun⟩
  | @group inner _ _ _ inside inductionHypothesis =>
      have shapedInner : inner.WellShaped := shaped
      have whole := (inductionHypothesis shapedInner).own
      exact ⟨(whole.of_le shapedInner inside _ (Tier.looseness_le_assignment _)).group, nofun⟩
  | unary behind inductionHypothesis =>
      have tight := (inductionHypothesis shaped.1).own
      exact ⟨(tight.of_le shaped.1 behind _ shaped.2).operator, nofun⟩
  | @binary _ _ _ _ span operator first second firstHypothesis secondHypothesis =>
      obtain ⟨shapedLeft, shapedRight, taken⟩ := shaped
      have left := (firstHypothesis shapedLeft).resumes_of_fits shapedLeft first taken.left
      have right := (secondHypothesis shapedRight).own.of_le shapedRight second _
        taken.right_operand
      exact Recovered.combine (.binary operator) left right
  | @logical _ _ _ _ span operator first second firstHypothesis secondHypothesis =>
      obtain ⟨shapedLeft, shapedRight, taken⟩ := shaped
      have left := (firstHypothesis shapedLeft).resumes_of_fits shapedLeft first taken.left
      have right := (secondHypothesis shapedRight).own.of_le shapedRight second _
        taken.right_operand
      exact Recovered.combine (.logical operator) left right
  | @assign _ value _ _ behind inductionHypothesis =>
      have shapedValue : value.WellShaped := shaped
      have whole := (inductionHypothesis shapedValue).own
      exact ⟨(whole.of_le shapedValue behind _ (Tier.looseness_le_assignment _)).assign, nofun⟩

end ReadsBack

/-- A rule for expressions succeeds exactly on the written form of an expression of its
tier, behind which the tier ends. -/
theorem succeeds_expressionOf {tier : Tier} {tokens rest : List Token} {value : Expr} :
    (expressionOf ending tier tokens).Succeeds value rest ↔ tier.Reads tokens value rest := by
  constructor
  · exact reads_of_expressionOf tier tokens
  · rintro ⟨shaped, fits, stops, consumed, written, rfl⟩
    exact (recovered_of_written written shaped).own.of_le shaped written tier fits rest stops

end Grammar

end TreeWalk
