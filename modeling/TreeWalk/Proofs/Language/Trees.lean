import TreeWalk.Proofs.Language.Ebnf
import TreeWalk.Proofs.Grammar.Node

/-!
# Derivations and trees

The barred grammar derives exactly the written forms of well-shaped trees. A tree is
taken apart along its productions in one direction; in the other a derivation is put
together to a tree, where operators of one level are gathered to the left and an `else`
goes to the nearest conditional that is still without one.
-/

namespace TreeWalk

/-- What the nonterminal derives in the barred grammar. -/
abbrev Symbol.Yields (symbol : Symbol) (tokens : List Token) : Prop :=
  Derives Dialect.barred.production (.symbol symbol) tokens

section Expressions

variable {tokens before behind : List Token} {span : Span}

/-- A looser tier derives what a tighter one derives. -/
theorem Symbol.Yields.of_le {tier : Tier} (yields : (Symbol.tier tier).Yields tokens)
    (looser : Tier) (fits : tier.looseness ≤ looser.looseness) :
    (Symbol.tier looser).Yields tokens := by
  by_cases same : tier = looser
  · rw [← same]
    exact yields
  have tighter := Tier.looseness_lt fits same
  match looser with
  | .assignment =>
      have inner := of_le yields (.infixed .disjunction) (Nat.le_of_lt_succ tighter)
      exact Ebnf.derives_symbol.2 (Or.inr inner)
  | .infixed level =>
      have inner := of_le yields level.operand (by
        rw [level.looseness_operand]
        exact Nat.le_of_lt_succ tighter)
      exact Ebnf.derives_symbol.2 ⟨tokens, [], by simp, inner, [], rfl, nofun⟩
  | .unary =>
      have inner := of_le yields .primary (Nat.le_of_lt_succ tighter)
      exact Ebnf.derives_symbol.2 (Or.inr inner)
  | .primary => cases tighter
termination_by looser.looseness
decreasing_by
  · decide
  · rw [level.looseness_operand]
    exact Nat.lt_succ_self _
  · decide

/-- One more operator of a level and its right operand. -/
theorem Symbol.Yields.operator {operator : InfixOperator}
    (left : (Symbol.tier operator.tier).Yields before)
    (right : (Symbol.tier operator.level.operand).Yields behind) :
    (Symbol.tier operator.tier).Yields (before ++ ⟨operator.kind, span⟩ :: behind) := by
  obtain ⟨first, _, rfl, operand, parts, rfl, each⟩ := Ebnf.derives_symbol.1 left
  refine Ebnf.derives_symbol.2 ⟨first, parts.flatten ++ ⟨operator.kind, span⟩ :: behind,
    by simp, operand, parts ++ [⟨operator.kind, span⟩ :: behind], by simp, ?_⟩
  refine List.forall_mem_append.2 ⟨each, List.forall_mem_singleton.2 ?_⟩
  exact ⟨[⟨operator.kind, span⟩], behind, rfl, Ebnf.denote_operators.2 ⟨operator, span, rfl, rfl⟩,
    right⟩

/-- An operator between operands that it can stand between. -/
theorem Symbol.Yields.takes {operator : InfixOperator} {left right : Expr}
    (taken : operator.Takes left right) (first : (Symbol.tier left.tier).Yields before)
    (second : (Symbol.tier right.tier).Yields behind) :
    (Symbol.tier operator.tier).Yields (before ++ ⟨operator.kind, span⟩ :: behind) := by
  refine Symbol.Yields.operator (first.of_le _ taken.left) (second.of_le _ ?_)
  rw [operator.level.looseness_operand]
  exact Nat.le_of_lt_succ taken.right

/-- A terminal is a primary expression. -/
theorem Symbol.yields_terminal {token : Token} (terminal : token.kind.isTerminal = true) :
    (Symbol.tier .primary).Yields [token] := by
  obtain ⟨kind, span⟩ := token
  refine Ebnf.derives_symbol.2 ?_
  simp only [Dialect.production, Ebnf.denote_orElse, Ebnf.denote]
  unfold Kind.isTerminal at terminal
  split at terminal <;> simp_all

/-- Every well-shaped expression is derived at its own tier. -/
theorem Expr.Written.yields {value : Expr} (written : value.Written tokens)
    (shaped : value.WellShaped) : (Symbol.tier value.tier).Yields tokens := by
  induction written with
  | terminal => exact Symbol.yields_terminal shaped
  | @group inner tokens opening closing inside inductionHypothesis =>
      have whole := (inductionHypothesis shaped).of_le _ (Tier.looseness_le_assignment _)
      have expression : Symbol.expression.Yields tokens := Ebnf.derives_symbol.2 whole
      refine Ebnf.derives_symbol.2 ?_
      simp only [Dialect.production]
      iterate 6 right
      exact ⟨⟨.punctuator .leftParen, opening⟩ :: tokens, _, rfl,
        ⟨[⟨.punctuator .leftParen, opening⟩], tokens, rfl, ⟨opening, rfl⟩, expression⟩,
        closing, rfl⟩
  | @unary operator operand tokens span behind inductionHypothesis =>
      have tight := (inductionHypothesis shaped.1).of_le _ shaped.2
      refine Ebnf.derives_symbol.2 (Or.inl ⟨[⟨.punctuator operator.mark, span⟩], tokens, rfl, ?_,
        tight⟩)
      cases operator with
      | negate => exact Or.inr ⟨span, rfl⟩
      | not => exact Or.inl ⟨span, rfl⟩
  | @binary _ _ _ _ span operator _ _ firstHypothesis secondHypothesis =>
      obtain ⟨shapedLeft, shapedRight, taken⟩ := shaped
      exact .takes taken (firstHypothesis shapedLeft) (secondHypothesis shapedRight)
  | @logical _ _ _ _ span operator _ _ firstHypothesis secondHypothesis =>
      obtain ⟨shapedLeft, shapedRight, taken⟩ := shaped
      exact .takes taken (firstHypothesis shapedLeft) (secondHypothesis shapedRight)
  | @assign target value tokens span behind inductionHypothesis =>
      have whole := (inductionHypothesis shaped).of_le _ (Tier.looseness_le_assignment _)
      exact Ebnf.derives_symbol.2 (Or.inl ⟨[target.token, ⟨.punctuator .equal, span⟩], tokens, rfl,
        ⟨[target.token], [⟨.punctuator .equal, span⟩], rfl, ⟨_, _, rfl⟩, span, rfl⟩, whole⟩)

/-- Every well-shaped expression is derived. -/
theorem Expr.Written.yields_expression {value : Expr} (written : value.Written tokens)
    (shaped : value.WellShaped) : Symbol.expression.Yields tokens :=
  Ebnf.derives_symbol.2 ((written.yields shaped).of_le .assignment (Tier.looseness_le_assignment _))

end Expressions

section Clauses

variable {tokens : List Token}

/-- The language of an expression in the derived languages. -/
abbrev Ebnf.Yields (body : Ebnf) (tokens : List Token) : Prop :=
  body.denote Symbol.Yields tokens

/-- An expression that may be left out. -/
theorem Expr.OptionWritten.yields {value : Option Expr} (written : Expr.OptionWritten value tokens)
    (shaped : ∀ inner ∈ value, inner.WellShaped) :
    (Ebnf.optional (.symbol .expression)).Yields tokens := by
  cases written with
  | none => exact Or.inl rfl
  | some present => exact Or.inr (present.yields_expression (shaped _ rfl))

/-- A variable declaration. -/
theorem Expr.InitializerWritten.yields {name : Identifier} {value : Option Expr}
    {span semicolon : Span} (written : Expr.InitializerWritten value tokens)
    (shaped : ∀ inner ∈ value, inner.WellShaped) :
    Symbol.variableDeclaration.Yields (⟨.keyword .varWord, span⟩ :: name.token :: tokens ++
      [⟨.punctuator .semicolon, semicolon⟩]) := by
  refine Ebnf.derives_symbol.2 ⟨⟨.keyword .varWord, span⟩ :: name.token :: tokens, _, rfl,
    ⟨[⟨.keyword .varWord, span⟩, name.token], tokens, rfl,
      ⟨[⟨.keyword .varWord, span⟩], [name.token], rfl, ⟨span, rfl⟩, _, _, rfl⟩, ?_⟩,
    semicolon, rfl⟩
  cases written with
  | none => exact Or.inl rfl
  | @some _ tokens equal present =>
      exact Or.inr ⟨[⟨.punctuator .equal, equal⟩], tokens, rfl, ⟨equal, rfl⟩,
        present.yields_expression (shaped _ rfl)⟩

/-- An expression statement. -/
theorem Expr.Written.yields_expressionStatement {value : Expr} {semicolon : Span}
    (written : value.Written tokens) (shaped : value.WellShaped) :
    Symbol.expressionStatement.Yields (tokens ++ [⟨.punctuator .semicolon, semicolon⟩]) :=
  Ebnf.derives_symbol.2 ⟨tokens, _, rfl, written.yields_expression shaped, semicolon, rfl⟩

/-- Names between commas are a name and then commas and names. -/
theorem Identifier.ListWritten.yields {names : List Identifier}
    (written : Identifier.ListWritten names tokens) :
    (Ebnf.optional (.sequence .identifier (.many (.sequence (.mark .comma) .identifier)))).Yields
      tokens := by
  induction written with
  | nil => exact Or.inl rfl
  | @single name => exact Or.inr ⟨[name.token], [], rfl, ⟨_, _, rfl⟩, [], rfl, nofun⟩
  | @cons name next names tokens comma others inductionHypothesis =>
      rcases inductionHypothesis with empty | ⟨_, _, rfl, ⟨text, place, rfl⟩, parts, rfl, each⟩
      · cases others <;> cases empty
      · refine Or.inr ⟨[name.token], _, rfl, ⟨_, _, rfl⟩,
          [⟨.punctuator .comma, comma⟩, ⟨.identifier text, place⟩] :: parts, rfl, ?_⟩
        refine List.forall_mem_cons.2 ⟨?_, each⟩
        exact ⟨[⟨.punctuator .comma, comma⟩], [⟨.identifier text, place⟩], rfl, ⟨comma, rfl⟩,
          _, _, rfl⟩

/-- A superclass that may be left out. -/
theorem Identifier.SuperclassWritten.yields {parent : Option Identifier}
    (written : Identifier.SuperclassWritten parent tokens) :
    (Ebnf.optional (.sequence (.mark .less) .identifier)).Yields tokens := by
  cases written with
  | none => exact Or.inl rfl
  | @some name span =>
      exact Or.inr ⟨[⟨.punctuator .less, span⟩], [name.token], rfl, ⟨span, rfl⟩, _, _, rfl⟩

end Clauses

section Nodes

variable {node : Node} {tokens asked chosen : List Token} {span : Span}

/-- A branch that does not begin with a minus sign follows a condition. -/
theorem Node.Written.yields_branch (written : node.Written tokens) (shaped : node.WellShaped)
    (noMinus : ¬ node.startsWithMinus) (stated : Symbol.statement.Yields tokens) :
    Dialect.barred.branch.Yields tokens := by
  obtain ⟨token, rest, rfl, _, minus⟩ := written.first shaped
  rw [← minus] at noMinus
  exact ⟨stated, fun same => noMinus (Option.some.inj same)⟩

/-- A conditional with or without its `else`. -/
theorem Symbol.Yields.conditional {other : List Token} (test : Symbol.expression.Yields asked)
    (branch : Dialect.barred.branch.Yields chosen)
    (alternative :
      (Ebnf.optional (.sequence (.word .elseWord) (.symbol .statement))).Yields other) :
    Symbol.conditional.Yields (⟨.keyword .ifWord, span⟩ :: asked ++ chosen ++ other) :=
  Ebnf.derives_symbol.2 ⟨⟨.keyword .ifWord, span⟩ :: asked ++ chosen, other, rfl,
    ⟨⟨.keyword .ifWord, span⟩ :: asked, chosen, rfl,
      ⟨[⟨.keyword .ifWord, span⟩], asked, rfl, ⟨span, rfl⟩, test⟩, branch⟩, alternative⟩

/-- A statement is one of its seven forms. -/
theorem Symbol.Yields.statement {symbol : Symbol} (yields : symbol.Yields tokens)
    (form : symbol ∈ [.block, .conditional, .whileLoop, .forLoop, .returned, .print,
      .expressionStatement]) : Symbol.statement.Yields tokens := by
  refine Ebnf.derives_symbol.2 ?_
  simp only [Dialect.production, Ebnf.denote_orElse, Ebnf.denote]
  simp only [List.mem_cons, List.not_mem_nil, or_false] at form
  rcases form with rfl | rfl | rfl | rfl | rfl | rfl | rfl <;> simp only [yields, true_or, or_true]

/-- A declaration is one of its four forms. -/
theorem Symbol.Yields.declaration {symbol : Symbol} (yields : symbol.Yields tokens)
    (form : symbol ∈ [.classDeclaration, .functionDeclaration, .variableDeclaration,
      .statement]) : Symbol.declaration.Yields tokens := by
  refine Ebnf.derives_symbol.2 ?_
  simp only [Dialect.production, Ebnf.denote_orElse, Ebnf.denote]
  simp only [List.mem_cons, List.not_mem_nil, or_false] at form
  rcases form with rfl | rfl | rfl | rfl <;> simp only [yields, true_or, or_true]

/-- The first clause of a `for`. -/
theorem Node.ClauseWritten.yields {clause : Option Node}
    (written : Node.ClauseWritten clause tokens)
    (shaped : ∀ node ∈ clause, node.WellShaped ∧ node.isInitializer) :
    (Ebnf.choice (.symbol .variableDeclaration)
      (.choice (.symbol .expressionStatement) (.mark .semicolon))).Yields tokens := by
  cases written with
  | none semicolon => exact Or.inr (Or.inr ⟨semicolon, rfl⟩)
  | @some node _ present =>
      obtain ⟨shapedNode, initial⟩ := shaped node rfl
      cases present with
      | variableDeclaration semicolon value =>
          exact Or.inl (value.yields (by simpa [Node.WellShaped] using shapedNode))
      | expressionStatement semicolon stated =>
          exact Or.inr (Or.inl (stated.yields_expressionStatement shapedNode.1))
      | _ => cases initial

/-- What a statement yields as a declaration and as a statement. -/
theorem Symbol.Yields.statement_forms {symbol : Symbol} (yields : symbol.Yields tokens)
    (form : symbol ∈ [.block, .conditional, .whileLoop, .forLoop, .returned, .print,
      .expressionStatement]) :
    Symbol.declaration.Yields tokens ∧ (node.isStatement → Symbol.statement.Yields tokens) :=
  ⟨(yields.statement form).declaration (by simp), fun _ => yields.statement form⟩

mutual

/-- Every well-shaped node is derived as a declaration, and as a statement if it is one. -/
theorem Node.Written.yields {node : Node} {tokens : List Token} :
    node.Written tokens → node.WellShaped →
      Symbol.declaration.Yields tokens ∧ (node.isStatement → Symbol.statement.Yields tokens)
  | .expression _, shaped => nomatch shaped
  | .expressionStatement _ stated, shaped =>
      (stated.yields_expressionStatement shaped.1).statement_forms (by simp)
  | @Node.Written.print _ tokens span semicolon shown, shaped =>
      have yields : Symbol.print.Yields _ := Ebnf.derives_symbol.2
        ⟨⟨.keyword .printWord, span⟩ :: tokens, _, rfl, ⟨[⟨.keyword .printWord, span⟩], tokens, rfl,
          ⟨span, rfl⟩, shown.yields_expression shaped⟩, semicolon, rfl⟩
      yields.statement_forms (by simp)
  | .variableDeclaration _ initial, shaped =>
      ⟨(initial.yields (by simpa [Node.WellShaped] using shaped)).declaration (by simp), nofun⟩
  | .block _ held, shaped => (held.yields_block shaped.2 shaped.1).statement_forms (by simp)
  | .conditional test positive, shaped => by
      obtain ⟨shapedTest, shapedBranch, statement, noMinus⟩ := shaped
      have branch := positive.yields_branch shapedBranch noMinus
        ((positive.yields shapedBranch).2 statement)
      suffices yields : Symbol.conditional.Yields _ from yields.statement_forms (by simp)
      -- In the production an `else` may be left out, and no token then stands in its place.
      rw [← List.append_nil (_ ++ _)]
      exact .conditional (test.yields_expression shapedTest) branch (Or.inl rfl)
  | .alternative between test positive negative, shaped => by
      obtain ⟨shapedTest, ⟨shapedBranch, statement, noMinus⟩, _, shapedElse, statementElse⟩ :=
        shaped
      have branch := positive.yields_branch shapedBranch noMinus
        ((positive.yields shapedBranch).2 statement)
      have other := (negative.yields shapedElse).2 statementElse
      suffices yields : Symbol.conditional.Yields _ from yields.statement_forms (by simp)
      exact .conditional (test.yields_expression shapedTest) branch
        (Or.inr ⟨[⟨.keyword .elseWord, between⟩], _, rfl, ⟨between, rfl⟩, other⟩)
  | @Node.Written.whileLoop _ _ asked repeated span test again, shaped => by
      obtain ⟨shapedTest, shapedBody, statement, noMinus⟩ := shaped
      have branch := again.yields_branch shapedBody noMinus ((again.yields shapedBody).2 statement)
      have yields : Symbol.whileLoop.Yields _ := Ebnf.derives_symbol.2
        ⟨⟨.keyword .whileWord, span⟩ :: asked, repeated, rfl,
          ⟨[⟨.keyword .whileWord, span⟩], asked, rfl, ⟨span, rfl⟩,
            test.yields_expression shapedTest⟩, branch⟩
      exact yields.statement_forms (by simp)
  | @Node.Written.forLoop _ _ _ _ first asked step repeated span opening semicolon closing initial
      test advance again, shaped => by
      obtain ⟨shapedFirst, shapedTest, shapedAdvance, shapedBody, statement⟩ :=
        Node.wellShaped_forLoop.1 shaped
      have body := (again.yields shapedBody).2 statement
      have yields : Symbol.forLoop.Yields (⟨.keyword .forWord, span⟩ ::
          ⟨.punctuator .leftParen, opening⟩ :: first ++ asked ++
          [⟨.punctuator .semicolon, semicolon⟩] ++ step ++
          [⟨.punctuator .rightParen, closing⟩] ++ repeated) :=
        Ebnf.derives_symbol.2 ⟨_, _, rfl, ⟨_, _, rfl, ⟨_, _, rfl, ⟨_, _, rfl, ⟨_, _, rfl,
          ⟨[⟨.keyword .forWord, span⟩, ⟨.punctuator .leftParen, opening⟩], first, rfl,
            ⟨[⟨.keyword .forWord, span⟩], [⟨.punctuator .leftParen, opening⟩], rfl, ⟨span, rfl⟩,
              opening, rfl⟩, initial.yields shapedFirst⟩, test.yields shapedTest⟩,
          semicolon, rfl⟩, advance.yields shapedAdvance⟩, closing, rfl⟩, body⟩
      -- The production groups its tokens to the left, where the written form lists them.
      suffices same : Symbol.forLoop.Yields _ from same.statement_forms (by simp)
      simpa using yields
  | @Node.Written.returned _ tokens span semicolon result, shaped =>
      have yields : Symbol.returned.Yields _ := Ebnf.derives_symbol.2
        ⟨⟨.keyword .returnWord, span⟩ :: tokens, _, rfl, ⟨[⟨.keyword .returnWord, span⟩], tokens,
          rfl, ⟨span, rfl⟩, result.yields shaped⟩, semicolon, rfl⟩
      yields.statement_forms (by simp)
  | @Node.Written.classDeclaration name _ _ parent tokens span start finish above held, shaped => by
      obtain ⟨parts, same, each⟩ := held.yields shaped
      have yields : Symbol.classDeclaration.Yields (⟨.keyword .classWord, span⟩ :: name.token ::
          parent ++ [⟨.punctuator .leftBrace, start⟩] ++ tokens ++
          [⟨.punctuator .rightBrace, finish⟩]) :=
        Ebnf.derives_symbol.2 ⟨_, _, rfl, ⟨_, _, rfl, ⟨_, _, rfl,
          ⟨[⟨.keyword .classWord, span⟩, name.token], parent, rfl,
            ⟨[⟨.keyword .classWord, span⟩], [name.token], rfl, ⟨span, rfl⟩, _, _, rfl⟩,
            above.yields⟩, start, rfl⟩, parts, same, each⟩, finish, rfl⟩
      suffices same : Symbol.classDeclaration.Yields _ from ⟨same.declaration (by simp), nofun⟩
      simpa using yields
  | @Node.Written.functionDeclaration function tokens declared, shaped =>
      have yields : Symbol.functionDeclaration.Yields _ := Ebnf.derives_symbol.2
        ⟨[⟨.keyword .funWord, function.span⟩], tokens, rfl, ⟨_, rfl⟩, declared.yields shaped⟩
      ⟨yields.declaration (by simp), nofun⟩

/-- Well-shaped nodes in turn are derived as declarations. -/
theorem Node.AllWritten.yields {nodes : List Node} {tokens : List Token} :
    Node.AllWritten nodes tokens → Node.AllWellShaped nodes → Ebnf.program.Yields tokens
  | .nil, _ => ⟨[], rfl, nofun⟩
  | .cons first behind, shaped => by
      obtain ⟨parts, rfl, each⟩ := behind.yields shaped.2
      exact ⟨_ :: parts, rfl, List.forall_mem_cons.2 ⟨(first.yields shaped.1).1, each⟩⟩

/-- Nodes between braces are a block. -/
theorem Node.AllWritten.yields_block {nodes : List Node} {tokens : List Token}
    {start finish : Span} : Node.AllWritten nodes tokens → Node.AllWellShaped nodes → nodes ≠ [] →
      Symbol.block.Yields (⟨.punctuator .leftBrace, start⟩ :: tokens ++
        [⟨.punctuator .rightBrace, finish⟩])
  | .nil, _, nonempty => absurd rfl nonempty
  | @Node.AllWritten.cons _ _ tokens rest first behind, shaped, _ =>
      Ebnf.derives_symbol.2 ⟨⟨.punctuator .leftBrace, start⟩ :: (tokens ++ rest), _, rfl,
        ⟨[⟨.punctuator .leftBrace, start⟩], tokens ++ rest, rfl, ⟨start, rfl⟩, tokens, rest, rfl,
          (first.yields shaped.1).1, behind.yields shaped.2⟩, finish, rfl⟩

/-- A well-shaped function is derived. -/
theorem Function.Written.yields {function : Function} {tokens : List Token} :
    function.Written tokens → function.WellShaped → Symbol.function.Yields tokens
  | @Function.Written.mk name _ _ names inside _ opening closing start finish listed held,
      shaped => by
      have block : Symbol.block.Yields (⟨.punctuator .leftBrace, start⟩ :: inside ++
          [⟨.punctuator .rightBrace, finish⟩]) := held.yields_block shaped.2 shaped.1
      have yields : Symbol.function.Yields ([name.token, ⟨.punctuator .leftParen, opening⟩] ++
          names ++ [⟨.punctuator .rightParen, closing⟩] ++ (⟨.punctuator .leftBrace, start⟩ ::
          inside ++ [⟨.punctuator .rightBrace, finish⟩])) :=
        Ebnf.derives_symbol.2 ⟨_, _, rfl, ⟨_, _, rfl,
          ⟨[name.token, ⟨.punctuator .leftParen, opening⟩], names, rfl,
            ⟨[name.token], [⟨.punctuator .leftParen, opening⟩], rfl, ⟨_, _, rfl⟩, opening, rfl⟩,
            listed.yields⟩, closing, rfl⟩, block⟩
      simpa using yields

/-- Well-shaped methods are derived as functions. -/
theorem Function.MethodsWritten.yields {methods : List Function} {tokens : List Token} :
    Function.MethodsWritten methods tokens → Function.MethodsWellShaped methods →
      (Ebnf.many (.symbol .function)).Yields tokens
  | .nil, _ => ⟨[], rfl, nofun⟩
  | .cons first _ behind, shaped => by
      obtain ⟨parts, rfl, each⟩ := behind.yields shaped.2.2
      exact ⟨_ :: parts, rfl, List.forall_mem_cons.2 ⟨first.yields shaped.1, each⟩⟩

end

end Nodes

end TreeWalk
