import TreeWalk.Proofs.Grammar.Expression

/-!
# What the parts of statements are read from

Clauses, lists of names and the statements without statements inside. Each is read from
exactly its written form, up to the punctuator that ends its place.
-/

namespace TreeWalk.Grammar

variable {ending span : Span} {tokens rest : List Token}

/-- A punctuator that neither opens an expression nor goes on with one. -/
structure Closes (mark : Punctuator) : Prop where
  noOperator : InfixOperator.ofKind? (.punctuator mark) = none
  noEqual : (Kind.punctuator mark) ≠ .punctuator .equal
  noExpression : (Kind.punctuator mark).opensExpression = false

/-- A semicolon neither opens an expression nor goes on with one. -/
theorem closes_semicolon : Closes .semicolon := ⟨rfl, nofun, rfl⟩

/-- Nor does a closing parenthesis. -/
theorem closes_rightParen : Closes .rightParen := ⟨rfl, nofun, rfl⟩

/-- An expression up to a closing punctuator. -/
theorem succeeds_expression {mark : Punctuator} (closes : Closes mark) {value : Expr}
    {place : Span} :
    (expression ending tokens).Succeeds value (⟨.punctuator mark, place⟩ :: rest) ↔
      value.WellShaped ∧ ∃ consumed, value.Written consumed ∧
        tokens = consumed ++ ⟨.punctuator mark, place⟩ :: rest := by
  rw [expression, succeeds_expressionOf]
  constructor
  · rintro ⟨shaped, _, _, written⟩
    exact ⟨shaped, written⟩
  · rintro ⟨shaped, written⟩
    exact ⟨shaped, Tier.looseness_le_assignment _,
      Tier.stops_cons closes.noOperator closes.noEqual _, written⟩

/-- An expression, or nothing, up to a closing punctuator. -/
theorem succeeds_optionalExpression {mark : Punctuator} (closes : Closes mark)
    {value : Option Expr} {place : Span} :
    (optionalExpression ending mark tokens).Succeeds value (⟨.punctuator mark, place⟩ :: rest) ↔
      (∀ inner ∈ value, inner.WellShaped) ∧ ∃ consumed, Expr.OptionWritten value consumed ∧
        tokens = consumed ++ ⟨.punctuator mark, place⟩ :: rest := by
  constructor
  · intro success
    rcases tokens with _ | ⟨token, tokens⟩
    · rw [optionalExpression] at success
      have := success.length_le
      cases this
    · rw [optionalExpression] at success
      split at success
      next =>
        obtain ⟨rfl, same⟩ := Reading.succeeds_accept.1 success
        exact ⟨by simp, [], .none, same⟩
      next =>
        obtain ⟨inner, present, rfl⟩ := Reading.succeeds_map.1 success
        obtain ⟨shaped, consumed, written, whole⟩ := (succeeds_expression closes).1 present
        exact ⟨by simpa using shaped, consumed, .some written, whole⟩
  · rintro ⟨shaped, consumed, written, rfl⟩
    cases written with
    | none =>
        rw [List.nil_append, optionalExpression, if_pos rfl]
        exact Reading.succeeds_accept.2 ⟨rfl, rfl⟩
    | @some inner _ written =>
        have shapedInner : inner.WellShaped := shaped inner rfl
        obtain ⟨token, after, rfl, opens, _⟩ := written.first shapedInner
        -- An expression that is there does not begin with the mark, and so is not passed over.
        have different : token.kind ≠ .punctuator mark := by
          intro same
          rw [same, closes.noExpression] at opens
          cases opens
        rw [List.cons_append, optionalExpression, if_neg different]
        exact Reading.succeeds_map.2
          ⟨inner, (succeeds_expression closes).2 ⟨shapedInner, _, written, rfl⟩, rfl⟩

/-- The initial value of a variable, or nothing, up to the semicolon. -/
theorem succeeds_initializer {value : Option Expr} {place : Span} :
    (initializer ending tokens).Succeeds value (⟨.punctuator .semicolon, place⟩ :: rest) ↔
      (∀ inner ∈ value, inner.WellShaped) ∧ ∃ consumed, Expr.InitializerWritten value consumed ∧
        tokens = consumed ++ ⟨.punctuator .semicolon, place⟩ :: rest := by
  constructor
  · intro success
    rcases tokens with _ | ⟨⟨kind, span⟩, tokens⟩
    · have := success.length_le
      cases this
    · rw [initializer] at success
      split at success
      next equal =>
        cases equal
        obtain ⟨inner, present, rfl⟩ := Reading.succeeds_map.1 success
        obtain ⟨shaped, consumed, written, rfl⟩ := (succeeds_expression closes_semicolon).1 present
        exact ⟨by simpa using shaped, _, .some span written, rfl⟩
      next =>
        obtain ⟨rfl, same⟩ := Reading.succeeds_accept.1 success
        exact ⟨by simp, [], .none, same⟩
  · rintro ⟨shaped, consumed, written, rfl⟩
    cases written with
    | none =>
        rw [List.nil_append, initializer, if_neg (by simp)]
        exact Reading.succeeds_accept.2 ⟨rfl, rfl⟩
    | @some inner _ span written =>
        rw [List.cons_append, initializer, if_pos rfl]
        exact Reading.succeeds_map.2
          ⟨inner, (succeeds_expression closes_semicolon).2 ⟨shaped inner rfl, _, written, rfl⟩, rfl⟩

/-- A variable declaration behind its keyword. -/
theorem succeeds_variableDeclaration {node : Node} :
    (variableDeclaration ending span tokens).Succeeds node rest ↔
      ∃ name value consumed semicolon, .variableDeclaration name value span = node ∧
        (∀ inner ∈ value, inner.WellShaped) ∧ Expr.InitializerWritten value consumed ∧
        tokens = name.token :: consumed ++ ⟨.punctuator .semicolon, semicolon⟩ :: rest := by
  rw [variableDeclaration]
  constructor
  · simp only [Reading.succeeds_andThen, succeeds_map_expect, succeeds_identifier]
    rintro ⟨name, _, _, rfl, value, _, _, initial, ⟨semicolon, rfl⟩, rfl⟩
    obtain ⟨shaped, consumed, written, rfl⟩ := succeeds_initializer.1 initial
    exact ⟨name, value, consumed, semicolon, rfl, shaped, written, rfl⟩
  · rintro ⟨name, value, consumed, semicolon, rfl, shaped, written, rfl⟩
    refine (succeeds_identifier.2 rfl).andThen fun _ => ?_
    refine (succeeds_initializer.2 ⟨shaped, consumed, written, rfl⟩).andThen fun _ => ?_
    exact succeeds_map_expect.2 ⟨⟨semicolon, rfl⟩, rfl⟩

/-- What is made of an expression and its semicolon. -/
theorem succeeds_terminated {make : Expr → Node} {node : Node} {limit : Nat}
    {within : tokens.length - 1 ≤ limit}
    {bounded : ∀ rest : List Token, rest.length ≤ tokens.length - 1 → rest.length ≤ limit} :
    ((expression ending tokens).andThen (fun value rest shorter =>
        (expect ending .semicolon rest).map (fun _ => make value) (bounded rest shorter))
      within).Succeeds node rest ↔
      ∃ value consumed semicolon, make value = node ∧
        value.WellShaped ∧ value.Written consumed ∧
        tokens = consumed ++ ⟨.punctuator .semicolon, semicolon⟩ :: rest := by
  constructor
  · simp only [Reading.succeeds_andThen, succeeds_map_expect]
    rintro ⟨value, _, _, stated, ⟨semicolon, rfl⟩, rfl⟩
    obtain ⟨shaped, consumed, written, rfl⟩ := (succeeds_expression closes_semicolon).1 stated
    exact ⟨value, consumed, semicolon, rfl, shaped, written, rfl⟩
  · rintro ⟨value, consumed, semicolon, rfl, shaped, written, rfl⟩
    refine ((succeeds_expression closes_semicolon).2 ⟨shaped, consumed, written, rfl⟩).andThen
      fun _ => ?_
    exact succeeds_map_expect.2 ⟨⟨semicolon, rfl⟩, rfl⟩

/-- An expression statement. -/
theorem succeeds_expressionStatement {node : Node} :
    (expressionStatement ending tokens).Succeeds node rest ↔
      ∃ value consumed semicolon, .expressionStatement value value.span = node ∧
        value.WellShaped ∧ value.Written consumed ∧
        tokens = consumed ++ ⟨.punctuator .semicolon, semicolon⟩ :: rest :=
  succeeds_terminated

/-- A print statement behind its keyword. -/
theorem succeeds_printStatement {node : Node} :
    (printStatement ending span tokens).Succeeds node rest ↔
      ∃ value consumed semicolon, .print value span = node ∧
        value.WellShaped ∧ value.Written consumed ∧
        tokens = consumed ++ ⟨.punctuator .semicolon, semicolon⟩ :: rest :=
  succeeds_terminated

/-- A return statement behind its keyword. -/
theorem succeeds_returnStatement {node : Node} :
    (returnStatement ending span tokens).Succeeds node rest ↔
      ∃ value consumed semicolon, .returned value span = node ∧
        (∀ inner ∈ value, inner.WellShaped) ∧ Expr.OptionWritten value consumed ∧
        tokens = consumed ++ ⟨.punctuator .semicolon, semicolon⟩ :: rest := by
  rw [returnStatement]
  constructor
  · simp only [Reading.succeeds_andThen, succeeds_map_expect]
    rintro ⟨value, _, _, result, ⟨semicolon, rfl⟩, rfl⟩
    obtain ⟨shaped, consumed, written, rfl⟩ :=
      (succeeds_optionalExpression closes_semicolon).1 result
    exact ⟨value, consumed, semicolon, rfl, shaped, written, rfl⟩
  · rintro ⟨value, consumed, semicolon, rfl, shaped, written, rfl⟩
    refine ((succeeds_optionalExpression closes_semicolon).2
      ⟨shaped, consumed, written, rfl⟩).andThen fun _ => ?_
    exact succeeds_map_expect.2 ⟨⟨semicolon, rfl⟩, rfl⟩

/-- The first clause of a `for` with its semicolon. -/
theorem succeeds_forInitializer {clause : Option Node} :
    (forInitializer ending tokens).Succeeds clause rest ↔
      (∀ node ∈ clause, node.WellShaped ∧ node.isInitializer) ∧
        ∃ consumed, Node.ClauseWritten clause consumed ∧ tokens = consumed ++ rest := by
  constructor
  · intro success
    rcases tokens with _ | ⟨⟨kind, span⟩, tokens⟩
    · rw [forInitializer] at success
      obtain ⟨node, stated, rfl⟩ := Reading.succeeds_map.1 success
      obtain ⟨value, consumed, semicolon, _, _, _, whole⟩ := succeeds_expressionStatement.1 stated
      simp at whole
    · rw [forInitializer] at success
      split at success
      next empty =>
        cases empty
        obtain ⟨rfl, rfl⟩ := Reading.succeeds_accept.1 success
        exact ⟨by simp, _, .none span, rfl⟩
      next declared =>
        cases declared
        obtain ⟨node, present, rfl⟩ := Reading.succeeds_map.1 success
        obtain ⟨name, value, consumed, semicolon, rfl, shaped, written, rfl⟩ :=
          succeeds_variableDeclaration.1 present
        exact ⟨by simpa [Node.WellShaped, Node.isInitializer] using shaped, _,
          .some (.variableDeclaration semicolon written), by simp⟩
      next =>
        obtain ⟨node, present, rfl⟩ := Reading.succeeds_map.1 success
        obtain ⟨value, consumed, semicolon, rfl, shaped, written, whole⟩ :=
          succeeds_expressionStatement.1 present
        exact ⟨by simpa [Node.WellShaped, Node.isInitializer] using shaped, _,
          .some (.expressionStatement semicolon written), by simpa using whole⟩
  · rintro ⟨shaped, consumed, written, rfl⟩
    cases written with
    | none semicolon =>
        rw [List.cons_append, forInitializer]
        exact Reading.succeeds_accept.2 ⟨rfl, rfl⟩
    | @some node _ written =>
        obtain ⟨shapedNode, initial⟩ := shaped node rfl
        cases written with
        | variableDeclaration semicolon written =>
            rw [List.cons_append, List.cons_append, forInitializer]
            refine Reading.succeeds_map.2 ⟨_, succeeds_variableDeclaration.2 ?_, rfl⟩
            exact ⟨_, _, _, semicolon, rfl, shapedNode, written, by simp⟩
        | expressionStatement semicolon written =>
            obtain ⟨token, after, rfl, opens, _⟩ := written.first shapedNode.1
            have statement : (expressionStatement ending
                (token :: after ++ ⟨.punctuator .semicolon, semicolon⟩ :: rest)).Succeeds _ rest :=
              succeeds_expressionStatement.2
                ⟨_, _, semicolon, rfl, shapedNode.1, written, rfl⟩
            rw [List.append_assoc, List.cons_append, forInitializer]
            split
            -- Neither a semicolon nor `var` opens an expression.
            next empty => rw [empty] at opens; cases opens
            next declared => rw [declared] at opens; cases opens
            next => exact Reading.succeeds_map.2 ⟨_, statement, rfl⟩
        | _ => cases initial

/-- Names are read from names between commas and the parenthesis behind them. -/
theorem listWritten_of_parameterNames {names : List Identifier} (tokens : List Token)
    (success : (parameterNames ending tokens).Succeeds names rest) :
    names ≠ [] ∧ ∃ consumed closing, Identifier.ListWritten names consumed ∧
      tokens = consumed ++ ⟨.punctuator .rightParen, closing⟩ :: rest := by
  rw [parameterNames] at success
  obtain ⟨name, middle, _, first, success⟩ := Reading.succeeds_andThen.1 success
  have whole := succeeds_identifier.1 first
  rcases middle with _ | ⟨⟨kind, span⟩, middle⟩
  · cases Reading.not_succeeds_reject success
  · have shorter : middle.length + 1 ≤ tokens.length - 1 := first.length_le
    simp only at success
    split at success
    next comma =>
      cases comma
      obtain ⟨others, behind, rfl⟩ := Reading.succeeds_map.1 success
      obtain ⟨nonempty, consumed, closing, written, rfl⟩ :=
        listWritten_of_parameterNames middle behind
      refine ⟨nofun, name.token :: ⟨.punctuator .comma, span⟩ :: consumed, closing, ?_, whole⟩
      cases others with
      | nil => cases nonempty rfl
      | cons => exact .cons span written
    next =>
      obtain ⟨⟨closing, same⟩, rfl⟩ := succeeds_map_expect.1 success
      exact ⟨nofun, [name.token], closing, .single, by rw [whole, same]; rfl⟩
termination_by tokens.length

/-- Names between commas and the parenthesis behind them. -/
theorem succeeds_parameterNames {names : List Identifier} :
    (parameterNames ending tokens).Succeeds names rest ↔
      names ≠ [] ∧ ∃ consumed closing, Identifier.ListWritten names consumed ∧
        tokens = consumed ++ ⟨.punctuator .rightParen, closing⟩ :: rest := by
  constructor
  · exact listWritten_of_parameterNames tokens
  · rintro ⟨nonempty, consumed, closing, written, rfl⟩
    induction written with
    | nil => cases nonempty rfl
    | single =>
        rw [List.singleton_append, parameterNames]
        refine (succeeds_identifier.2 rfl).andThen fun _ => ?_
        simp only [Kind.punctuator.injEq, reduceCtorEq, if_false]
        exact succeeds_map_expect.2 ⟨⟨closing, rfl⟩, rfl⟩
    | cons comma others inductionHypothesis =>
        rw [parameterNames]
        refine (succeeds_identifier.2 rfl).andThen fun _ => ?_
        simp only [List.append_eq, List.cons_append, if_true]
        exact Reading.succeeds_map.2 ⟨_, inductionHypothesis nofun, rfl⟩

/-- Names in parentheses. -/
theorem succeeds_parameters {names : List Identifier} :
    (parameters ending tokens).Succeeds names rest ↔
      ∃ opening consumed closing, Identifier.ListWritten names consumed ∧
        tokens = ⟨.punctuator .leftParen, opening⟩ :: consumed ++
          ⟨.punctuator .rightParen, closing⟩ :: rest := by
  rw [parameters]
  constructor
  · intro success
    obtain ⟨_, middle, _, first, success⟩ := Reading.succeeds_andThen.1 success
    obtain ⟨opening, rfl, rfl⟩ := succeeds_expect.1 first
    rcases middle with _ | ⟨⟨kind, span⟩, middle⟩
    · obtain ⟨_, consumed, closing, _, whole⟩ :=
        succeeds_parameterNames.1 (Reading.succeeds_widen.1 success)
      simp at whole
    · simp only at success
      split at success
      next empty =>
        cases empty
        obtain ⟨rfl, rfl⟩ := Reading.succeeds_accept.1 success
        exact ⟨opening, [], span, .nil, rfl⟩
      next =>
        obtain ⟨_, consumed, closing, written, whole⟩ :=
          succeeds_parameterNames.1 (Reading.succeeds_widen.1 success)
        exact ⟨opening, consumed, closing, written, by rw [whole]; rfl⟩
  · rintro ⟨opening, consumed, closing, written, rfl⟩
    refine (succeeds_expect.2 ⟨opening, rfl, rfl⟩).andThen fun _ => ?_
    -- The rule for names wants one at least, so none at all is a case of its own.
    by_cases nonempty : names = []
    · subst nonempty
      cases written
      exact Reading.succeeds_accept.2 ⟨rfl, rfl⟩
    · have listed : (parameterNames ending
          (consumed ++ ⟨.punctuator .rightParen, closing⟩ :: rest)).Succeeds names rest :=
        succeeds_parameterNames.2 ⟨nonempty, consumed, closing, written, rfl⟩
      obtain ⟨name, after, rfl⟩ := written.first nonempty
      simp only [List.append_eq, List.cons_append, Identifier.token, reduceCtorEq, if_false]
      exact Reading.succeeds_widen.2 listed

/-- A superclass, or nothing, up to the opening brace. -/
theorem succeeds_superclass {parent : Option Identifier} {place : Span} :
    (superclass ending tokens).Succeeds parent (⟨.punctuator .leftBrace, place⟩ :: rest) ↔
      ∃ consumed, Identifier.SuperclassWritten parent consumed ∧
        tokens = consumed ++ ⟨.punctuator .leftBrace, place⟩ :: rest := by
  constructor
  · intro success
    rcases tokens with _ | ⟨⟨kind, span⟩, tokens⟩
    · have := success.length_le
      cases this
    · rw [superclass] at success
      split at success
      next less =>
        cases less
        obtain ⟨name, present, rfl⟩ := Reading.succeeds_map.1 success
        obtain rfl := succeeds_identifier.1 present
        exact ⟨_, .some span, rfl⟩
      next =>
        obtain ⟨rfl, same⟩ := Reading.succeeds_accept.1 success
        exact ⟨[], .none, same⟩
  · rintro ⟨consumed, written, rfl⟩
    cases written with
    | none =>
        rw [List.nil_append, superclass, if_neg (by simp)]
        exact Reading.succeeds_accept.2 ⟨rfl, rfl⟩
    | some span =>
        rw [List.cons_append, superclass, if_pos rfl]
        exact Reading.succeeds_map.2 ⟨_, succeeds_identifier.2 rfl, rfl⟩

end TreeWalk.Grammar
