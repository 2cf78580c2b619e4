import TreeWalk.Proofs.Language.Ebnf
import TreeWalk.Proofs.Grammar.Node

/-!
# From derivations to trees

What the barred grammar derives is the written form of a well-shaped tree. Operators of
one level are gathered to the left, and an `else` goes to the nearest conditional that is
still without one.
-/

namespace TreeWalk

section Alternatives

variable {elseBranch : Node} {between : Span} {other : List Token}

/-- A statement with an `else` put behind it. -/
def Node.TakesElse (between : Span) (other tokens : List Token) : Prop :=
  ∃ whole : Node, whole.WellShaped ∧ whole.isStatement ∧ ¬ whole.startsWithMinus ∧
    whole.Written (tokens ++ ⟨.keyword .elseWord, between⟩ :: other)

/-- A conditional takes the `else` itself if its branch does not. -/
theorem Node.TakesElse.conditional {condition : Expr} {branch : Node} {span : Span}
    {asked chosen : List Token} (shapedElse : elseBranch.WellShaped)
    (statementElse : elseBranch.isStatement) (writtenElse : elseBranch.Written other)
    (shapedTest : condition.WellShaped) (test : condition.Written asked)
    (shaped : branch.WellShaped ∧ branch.isStatement ∧ ¬ branch.startsWithMinus)
    (positive : branch.Written chosen)
    (inner : branch.endsOpen → Node.TakesElse between other chosen) :
    Node.TakesElse between other (⟨.keyword .ifWord, span⟩ :: asked ++ chosen) := by
  by_cases opened : branch.endsOpen
  · obtain ⟨whole, shapedWhole, statement, noMinus, written⟩ := inner opened
    refine ⟨.conditional condition whole none span,
      ⟨shapedTest, shapedWhole, statement, noMinus⟩, rfl, nofun, ?_⟩
    rw [List.append_assoc]
    exact .conditional test written
  · exact ⟨.conditional condition branch (some elseBranch) span,
      ⟨shapedTest, shaped, opened, shapedElse, statementElse⟩, rfl, nofun,
      .alternative between test positive writtenElse⟩

/-- A statement that ends open takes an `else`. -/
theorem Node.takesElse_of_written (shapedElse : elseBranch.WellShaped)
    (statementElse : elseBranch.isStatement) (writtenElse : elseBranch.Written other)
    {node : Node} {tokens : List Token} :
    node.Written tokens → node.WellShaped → node.endsOpen →
      Node.TakesElse between other tokens
  | .conditional test positive, ⟨shapedTest, shapedBranch⟩, _ =>
      .conditional shapedElse statementElse writtenElse shapedTest test shapedBranch positive
        (Node.takesElse_of_written shapedElse statementElse writtenElse positive shapedBranch.1)
  | @Node.Written.alternative condition branch _ asked chosen rest span middle test positive
      negative, ⟨shapedTest, shapedBranch, closed, shapedOther, _⟩, opened => by
      obtain ⟨whole, shapedWhole, statement, _, written⟩ :=
        Node.takesElse_of_written shapedElse statementElse writtenElse negative shapedOther
          (by simpa [Node.endsOpen] using opened)
      refine ⟨.conditional condition branch (some whole) span,
        ⟨shapedTest, shapedBranch, closed, shapedWhole, statement⟩, rfl, nofun, ?_⟩
      rw [List.append_assoc, List.cons_append]
      exact .alternative middle test positive written
  | @Node.Written.whileLoop condition _ asked repeated span test again,
      ⟨shapedTest, shapedBody, _⟩, opened => by
      obtain ⟨whole, shapedWhole, statement, noMinus, written⟩ :=
        Node.takesElse_of_written shapedElse statementElse writtenElse again shapedBody
          (by simpa [Node.endsOpen] using opened)
      refine ⟨.whileLoop condition whole span, ⟨shapedTest, shapedWhole, statement, noMinus⟩, rfl,
        nofun, ?_⟩
      rw [List.append_assoc]
      exact .whileLoop test written
  | @Node.Written.forLoop initializer condition increment _ first asked step repeated span opening
      semicolon closing initial test advance again, shaped, opened => by
      obtain ⟨shapedFirst, shapedTest, shapedAdvance, shapedBody, _⟩ :=
        Node.wellShaped_forLoop.1 shaped
      obtain ⟨whole, shapedWhole, statement, _, written⟩ :=
        Node.takesElse_of_written shapedElse statementElse writtenElse again shapedBody
          (by simpa [Node.endsOpen] using opened)
      refine ⟨.forLoop initializer condition increment whole span,
        Node.wellShaped_forLoop.2 ⟨shapedFirst, shapedTest, shapedAdvance, shapedWhole, statement⟩,
        rfl, nofun, ?_⟩
      rw [List.append_assoc, List.cons_append]
      exact .forLoop opening semicolon closing initial test advance written
  -- No other node ends in a conditional without an `else`.
  | .expression _, _, opened => by cases opened
  | .expressionStatement _ _, _, opened => by cases opened
  | .print _ _, _, opened => by cases opened
  | .variableDeclaration _ _, _, opened => by cases opened
  | .block _ _, _, opened => by cases opened
  | .returned _ _, _, opened => by cases opened
  | .classDeclaration _ _ _ _, _, opened => by cases opened
  | .functionDeclaration _, _, opened => by cases opened

end Alternatives

/-- The written forms of the trees that a nonterminal stands for. -/
def Symbol.Trees : Symbol → Language
  | .tier loosest, tokens =>
      ∃ value : Expr, value.WellShaped ∧ value.tier.looseness ≤ loosest.looseness ∧
        value.Written tokens
  | .expression, tokens => ∃ value : Expr, value.WellShaped ∧ value.Written tokens
  | .block, tokens =>
      ∃ nodes inside start finish, nodes ≠ [] ∧ Node.AllWellShaped nodes ∧
        Node.AllWritten nodes inside ∧
        tokens = ⟨.punctuator .leftBrace, start⟩ :: inside ++ [⟨.punctuator .rightBrace, finish⟩]
  | .function, tokens =>
      ∃ name parameters body, body ≠ [] ∧ Node.AllWellShaped body ∧
        ∀ span, Function.Written (.mk name parameters body span) tokens
  | .variableDeclaration, tokens =>
      ∃ node : Node, node.WellShaped ∧ node.isInitializer ∧ node.Written tokens
  | .expressionStatement, tokens =>
      ∃ node : Node, node.WellShaped ∧ node.isInitializer ∧ node.isStatement ∧ node.Written tokens
  | .classDeclaration, tokens => ∃ node : Node, node.WellShaped ∧ node.Written tokens
  | .functionDeclaration, tokens => ∃ node : Node, node.WellShaped ∧ node.Written tokens
  | .declaration, tokens => ∃ node : Node, node.WellShaped ∧ node.Written tokens
  | _, tokens => ∃ node : Node, node.WellShaped ∧ node.isStatement ∧ node.Written tokens

/-- The written forms that an expression of the notation stands for. -/
abbrev Ebnf.Trees (body : Ebnf) (tokens : List Token) : Prop :=
  body.denote Symbol.Trees tokens

section Closed

variable {tokens : List Token}

/-- Operators of one level are gathered onto the left operand. -/
theorem Expr.exists_operators {level : Level} {left : Expr} (shaped : left.WellShaped)
    (fits : left.tier.looseness ≤ (Tier.infixed level).looseness) {before : List Token}
    (written : left.Written before) (parts : List (List Token))
    (each : ∀ part ∈ parts,
      (level.operators ++ .symbol (.tier level.operand)).Trees part) :
    (Symbol.tier (.infixed level)).Trees (before ++ parts.flatten) := by
  induction parts generalizing left before with
  | nil =>
      rw [List.flatten_nil, List.append_nil]
      exact ⟨left, shaped, fits, written⟩
  | cons part parts inductionHypothesis =>
      obtain ⟨⟨_, behind, rfl, operators, right, shapedRight, fitsRight, writtenRight⟩, others⟩ :=
        List.forall_mem_cons.1 each
      obtain ⟨operator, span, rfl, rfl⟩ := Ebnf.denote_operators.1 operators
      have taken : operator.Takes left right :=
        ⟨fits, Nat.lt_of_le_of_lt fitsRight operator.level.looseness_operand_lt⟩
      have combined : (operator.combine left right span).Written
          (before ++ ⟨operator.kind, span⟩ :: behind) :=
        InfixOperator.written_combine written writtenRight
      have whole := inductionHypothesis
        (InfixOperator.wellShaped_combine.2 ⟨shaped, shapedRight, taken⟩)
        (by rw [InfixOperator.tier_combine]; exact Nat.le_refl _) combined others
      simpa using whole

/-- Every tier of expressions is closed. -/
theorem Symbol.trees_tier (tier : Tier)
    (inside : (Dialect.barred.production (.tier tier)).Trees tokens) :
    (Symbol.tier tier).Trees tokens := by
  cases tier with
  | assignment =>
      rcases inside with ⟨_, behind, rfl, ⟨_, _, rfl, ⟨name, place, rfl⟩, span, rfl⟩, value, shaped,
        _, written⟩ | ⟨value, shaped, fits, written⟩
      · exact ⟨.assign ⟨name, place⟩ value span, shaped, Nat.le_refl _, .assign written⟩
      · exact ⟨value, shaped, Nat.le_trans fits (by decide), written⟩
  | infixed level =>
      obtain ⟨before, _, rfl, ⟨left, shaped, fits, written⟩, parts, rfl, each⟩ := inside
      exact Expr.exists_operators shaped
        (Nat.le_of_lt (Nat.lt_of_le_of_lt fits level.looseness_operand_lt)) written parts each
  | unary =>
      rcases inside with ⟨_, behind, rfl, mark, operand, shaped, fits, written⟩ |
        ⟨value, shaped, fits, written⟩
      · rcases mark with ⟨span, rfl⟩ | ⟨span, rfl⟩
        · exact ⟨.unary .not operand span, ⟨shaped, fits⟩, Nat.le_refl _, .unary written⟩
        · exact ⟨.unary .negate operand span, ⟨shaped, fits⟩, Nat.le_refl _, .unary written⟩
      · exact ⟨value, shaped, Nat.le_succ_of_le fits, written⟩
  | primary =>
      rcases inside with ⟨_, rfl⟩ | ⟨_, rfl⟩ | ⟨_, rfl⟩ | ⟨_, _, _, rfl⟩ | ⟨_, _, rfl⟩ |
        ⟨_, _, rfl⟩ | ⟨_, _, rfl, ⟨_, inner, rfl, ⟨opening, rfl⟩, value, shaped, written⟩,
          closing, rfl⟩
      case' inr.inr.inr.inr.inr.inr =>
        exact ⟨.group value opening, shaped, Nat.le_refl _, .group closing written⟩
      all_goals
        refine ⟨.terminal _, ?_, Nat.le_refl _, .terminal⟩
        rfl

open Ebnf in
/-- An expression that may be left out. -/
theorem Expr.exists_optionWritten_of_trees
    (inside : (optional (symbol .expression)).Trees tokens) :
    ∃ value : Option Expr, (∀ inner ∈ value, inner.WellShaped) ∧
      Expr.OptionWritten value tokens := by
  rcases inside with rfl | ⟨value, shaped, written⟩
  · exact ⟨none, nofun, .none⟩
  · exact ⟨some value, by simpa using shaped, .some written⟩

open Ebnf in
/-- An initial value that may be left out. -/
theorem Expr.exists_initializerWritten_of_trees
    (inside : (optional (mark .equal ++ symbol .expression)).Trees tokens) :
    ∃ value : Option Expr, (∀ inner ∈ value, inner.WellShaped) ∧
      Expr.InitializerWritten value tokens := by
  rcases inside with rfl | ⟨_, _, rfl, ⟨span, rfl⟩, value, shaped, written⟩
  · exact ⟨none, nofun, .none⟩
  · exact ⟨some value, by simpa using shaped, .some span written⟩

open Ebnf in
/-- A superclass that may be left out. -/
theorem Identifier.exists_superclassWritten_of_trees
    (inside : (optional (mark .less ++ identifier)).Trees tokens) :
    ∃ parent, Identifier.SuperclassWritten parent tokens := by
  rcases inside with rfl | ⟨_, _, rfl, ⟨span, rfl⟩, name, place, rfl⟩
  · exact ⟨none, .none⟩
  · exact ⟨some ⟨name, place⟩, .some span⟩

open Ebnf in
/-- A name and then commas and names are names between commas. -/
theorem Identifier.exists_listWritten_of_trees
    (inside : (optional (identifier ++ many (mark .comma ++ identifier))).Trees tokens) :
    ∃ names, Identifier.ListWritten names tokens := by
  rcases inside with rfl | ⟨_, _, rfl, ⟨name, place, rfl⟩, parts, rfl, each⟩
  · exact ⟨[], .nil⟩
  · suffices listed : ∃ others,
        Identifier.ListWritten (⟨name, place⟩ :: others)
          (⟨.identifier name, place⟩ :: parts.flatten) by
      obtain ⟨others, written⟩ := listed
      exact ⟨_, written⟩
    induction parts generalizing name place with
    | nil => exact ⟨[], .single⟩
    | cons part parts inductionHypothesis =>
        obtain ⟨⟨_, _, rfl, ⟨comma, rfl⟩, next, position, rfl⟩, behind⟩ :=
          List.forall_mem_cons.1 each
        obtain ⟨others, written⟩ := inductionHypothesis next position behind
        exact ⟨_, .cons comma written⟩

open Ebnf in
/-- Declarations in turn are a list of nodes. -/
theorem Node.exists_allWritten_of_trees (inside : (many (symbol .declaration)).Trees tokens) :
    ∃ nodes, Node.AllWellShaped nodes ∧ Node.AllWritten nodes tokens := by
  obtain ⟨parts, rfl, each⟩ := inside
  induction parts with
  | nil => exact ⟨[], trivial, .nil⟩
  | cons part parts inductionHypothesis =>
      obtain ⟨⟨node, shaped, written⟩, behind⟩ := List.forall_mem_cons.1 each
      obtain ⟨nodes, shapedOthers, writtenOthers⟩ := inductionHypothesis behind
      exact ⟨node :: nodes, ⟨shaped, shapedOthers⟩, .cons written writtenOthers⟩

open Ebnf in
/-- Functions in turn are a list of methods, each at its name. -/
theorem Function.exists_methodsWritten_of_trees (inside : (many (symbol .function)).Trees tokens) :
    ∃ methods, Function.MethodsWellShaped methods ∧ Function.MethodsWritten methods tokens := by
  obtain ⟨parts, rfl, each⟩ := inside
  induction parts with
  | nil => exact ⟨[], trivial, .nil⟩
  | cons part parts inductionHypothesis =>
      obtain ⟨⟨name, parameters, body, nonempty, shaped, written⟩, behind⟩ :=
        List.forall_mem_cons.1 each
      obtain ⟨others, shapedOthers, writtenOthers⟩ := inductionHypothesis behind
      exact ⟨.mk name parameters body name.span :: others, ⟨⟨nonempty, shaped⟩, rfl, shapedOthers⟩,
        .cons (written name.span) rfl writtenOthers⟩

/-- What may follow a condition is a statement that does not begin with a minus sign. -/
theorem Node.exists_written_of_branch (inside : Dialect.barred.branch.Trees tokens) :
    ∃ node : Node, (node.WellShaped ∧ node.isStatement ∧ ¬ node.startsWithMinus) ∧
      node.Written tokens := by
  obtain ⟨⟨node, shaped, statement, written⟩, different⟩ := inside
  refine ⟨node, ⟨shaped, statement, ?_⟩, written⟩
  obtain ⟨token, rest, rfl, _, minus⟩ := written.first shaped
  rw [← minus]
  exact fun same => different (congrArg some same)

open Ebnf in
/-- The first clause of a `for`. -/
theorem Node.exists_clauseWritten_of_trees
    (inside : (symbol .variableDeclaration <|> symbol .expressionStatement <|>
      mark .semicolon).Trees tokens) :
    ∃ clause : Option Node, (∀ node ∈ clause, node.WellShaped ∧ node.isInitializer) ∧
      Node.ClauseWritten clause tokens := by
  rcases inside with ⟨node, shaped, initial, written⟩ | ⟨node, shaped, initial, _, written⟩ |
    ⟨span, rfl⟩
  · exact ⟨some node, by simpa using ⟨shaped, initial⟩, .some written⟩
  · exact ⟨some node, by simpa using ⟨shaped, initial⟩, .some written⟩
  · exact ⟨none, nofun, .none span⟩

/-- The production of a conditional is closed, with an `else` or without. -/
theorem Symbol.trees_conditional (inside : (Dialect.barred.production .conditional).Trees tokens) :
    Symbol.conditional.Trees tokens := by
  obtain ⟨_, other, rfl, ⟨_, chosen, rfl, ⟨_, asked, rfl, ⟨span, rfl⟩, condition, shapedTest,
    test⟩, branch⟩, alternative⟩ := inside
  obtain ⟨node, shaped, positive⟩ := Node.exists_written_of_branch branch
  rcases alternative with rfl | ⟨_, negative, rfl, ⟨between, rfl⟩, elseBranch, shapedElse,
    statementElse, writtenElse⟩
  · rw [List.append_nil]
    exact ⟨.conditional condition node none span, ⟨shapedTest, shaped⟩, rfl,
      .conditional test positive⟩
  · obtain ⟨whole, shapedWhole, statement, _, written⟩ :=
      Node.TakesElse.conditional shapedElse statementElse writtenElse shapedTest test shaped
        positive (Node.takesElse_of_written shapedElse statementElse writtenElse positive shaped.1)
    exact ⟨whole, shapedWhole, statement, written⟩

/-- The production of a `while` loop is closed: its tokens are those of a loop. -/
theorem Symbol.trees_whileLoop (inside : (Dialect.barred.production .whileLoop).Trees tokens) :
    Symbol.whileLoop.Trees tokens := by
  obtain ⟨_, repeated, rfl, ⟨_, asked, rfl, ⟨span, rfl⟩, condition, shapedTest, test⟩, branch⟩ :=
    inside
  obtain ⟨body, shaped, written⟩ := Node.exists_written_of_branch branch
  exact ⟨.whileLoop condition body span, ⟨shapedTest, shaped⟩, rfl, .whileLoop test written⟩

/-- The production of a `for` loop is closed, with any of its clauses left out. -/
theorem Symbol.trees_forLoop (inside : (Dialect.barred.production .forLoop).Trees tokens) :
    Symbol.forLoop.Trees tokens := by
  obtain ⟨_, repeated, rfl, ⟨_, _, rfl, ⟨_, step, rfl, ⟨_, _, rfl, ⟨_, asked, rfl, ⟨_, first, rfl,
    ⟨_, _, rfl, ⟨span, rfl⟩, opening, rfl⟩, initial⟩, test⟩, semicolon, rfl⟩, advance⟩, closing,
    rfl⟩, body, shaped, statement, again⟩ := inside
  obtain ⟨initializer, shapedFirst, writtenFirst⟩ := Node.exists_clauseWritten_of_trees initial
  obtain ⟨condition, shapedTest, writtenTest⟩ := Expr.exists_optionWritten_of_trees test
  obtain ⟨increment, shapedAdvance, writtenAdvance⟩ := Expr.exists_optionWritten_of_trees advance
  refine ⟨.forLoop initializer condition increment body span,
    Node.wellShaped_forLoop.2 ⟨shapedFirst, shapedTest, shapedAdvance, shaped, statement⟩, rfl, ?_⟩
  have written : (Node.forLoop initializer condition increment body span).Written _ :=
    .forLoop opening semicolon closing writtenFirst writtenTest writtenAdvance again
  simpa using written

/-- The production of a class is closed. -/
theorem Symbol.trees_classDeclaration
    (inside : (Dialect.barred.production .classDeclaration).Trees tokens) :
    Symbol.classDeclaration.Trees tokens := by
  obtain ⟨_, _, rfl, ⟨_, held, rfl, ⟨_, _, rfl, ⟨_, above, rfl, ⟨_, _, rfl, ⟨span, rfl⟩, name,
    place, rfl⟩, parent⟩, start, rfl⟩, methods⟩, finish, rfl⟩ := inside
  obtain ⟨superclass, writtenParent⟩ := Identifier.exists_superclassWritten_of_trees parent
  obtain ⟨functions, shaped, written⟩ := Function.exists_methodsWritten_of_trees methods
  refine ⟨.classDeclaration ⟨name, place⟩ superclass functions span, shaped, ?_⟩
  simpa [Identifier.token] using Node.Written.classDeclaration start finish writtenParent written

/-- The production of a function is closed, whatever span the function is given. -/
theorem Symbol.trees_function (inside : (Dialect.barred.production .function).Trees tokens) :
    Symbol.function.Trees tokens := by
  obtain ⟨_, _, rfl, ⟨_, _, rfl, ⟨_, listed, rfl, ⟨_, _, rfl, ⟨name, place, rfl⟩, opening, rfl⟩,
    names⟩, closing, rfl⟩, body, inside, start, finish, nonempty, shaped, written, rfl⟩ := inside
  obtain ⟨parameters, writtenNames⟩ := Identifier.exists_listWritten_of_trees names
  refine ⟨⟨name, place⟩, parameters, body, nonempty, shaped, fun span => ?_⟩
  simpa [Identifier.token] using
    Function.Written.mk opening closing start finish writtenNames written

/-- The production of a block is closed. -/
theorem Symbol.trees_block (inside : (Dialect.barred.production .block).Trees tokens) :
    Symbol.block.Trees tokens := by
  obtain ⟨_, _, rfl, ⟨_, _, rfl, ⟨start, rfl⟩, _, _, rfl, ⟨node, shaped, written⟩, others⟩, finish,
    rfl⟩ := inside
  obtain ⟨nodes, shapedOthers, writtenOthers⟩ := Node.exists_allWritten_of_trees others
  exact ⟨node :: nodes, _, start, finish, List.cons_ne_nil _ _, ⟨shaped, shapedOthers⟩,
    .cons written writtenOthers, rfl⟩

/-- Every nonterminal is closed under its production. -/
theorem Symbol.trees_of_production (symbol : Symbol)
    (inside : (Dialect.barred.production symbol).Trees tokens) : symbol.Trees tokens := by
  cases symbol with
  | tier tier => exact Symbol.trees_tier tier inside
  | conditional => exact Symbol.trees_conditional inside
  | whileLoop => exact Symbol.trees_whileLoop inside
  | forLoop => exact Symbol.trees_forLoop inside
  | classDeclaration => exact Symbol.trees_classDeclaration inside
  | function => exact Symbol.trees_function inside
  | block => exact Symbol.trees_block inside
  | expression =>
      obtain ⟨value, shaped, _, written⟩ := inside
      exact ⟨value, shaped, written⟩
  | functionDeclaration =>
      obtain ⟨_, behind, rfl, ⟨span, rfl⟩, name, parameters, body, nonempty, shaped, written⟩ :=
        inside
      exact ⟨.functionDeclaration (.mk name parameters body span), ⟨nonempty, shaped⟩,
        .functionDeclaration (written span)⟩
  | variableDeclaration =>
      obtain ⟨_, _, rfl, ⟨_, initial, rfl, ⟨_, _, rfl, ⟨span, rfl⟩, name, place, rfl⟩, value⟩,
        semicolon, rfl⟩ := inside
      obtain ⟨initializer, shaped, written⟩ := Expr.exists_initializerWritten_of_trees value
      exact ⟨.variableDeclaration ⟨name, place⟩ initializer span,
        by simpa [Node.WellShaped] using shaped, rfl, .variableDeclaration semicolon written⟩
  | expressionStatement =>
      obtain ⟨stated, _, rfl, ⟨value, shaped, written⟩, semicolon, rfl⟩ := inside
      exact ⟨.expressionStatement value value.span, ⟨shaped, rfl⟩, rfl, rfl,
        .expressionStatement semicolon written⟩
  | print =>
      obtain ⟨_, _, rfl, ⟨_, shown, rfl, ⟨span, rfl⟩, value, shaped, written⟩, semicolon, rfl⟩ :=
        inside
      exact ⟨.print value span, shaped, rfl, .print semicolon written⟩
  | returned =>
      obtain ⟨_, _, rfl, ⟨_, _, rfl, ⟨span, rfl⟩, result⟩, semicolon, rfl⟩ := inside
      obtain ⟨value, shaped, written⟩ := Expr.exists_optionWritten_of_trees result
      exact ⟨.returned value span, shaped, rfl, .returned semicolon written⟩
  | declaration =>
      rcases inside with known | known | ⟨node, shaped, _, written⟩ | ⟨node, shaped, _, written⟩
      · exact known
      · exact known
      · exact ⟨node, shaped, written⟩
      · exact ⟨node, shaped, written⟩
  | statement =>
      rcases inside with ⟨nodes, held, start, finish, nonempty, shaped, written, rfl⟩ | known |
        known | known | known | known | ⟨node, shaped, _, statement, written⟩
      · exact ⟨.block nodes start, ⟨nonempty, shaped⟩, rfl, .block finish written⟩
      · exact known
      · exact known
      · exact known
      · exact known
      · exact known
      · exact ⟨node, shaped, statement, written⟩

/-- Whatever the barred grammar derives is written from trees. -/
theorem Ebnf.trees_of_derives {body : Ebnf}
    (derived : Derives Dialect.barred.production body tokens) : body.Trees tokens :=
  Ebnf.denote_of_derives (fun symbol _ => Symbol.trees_of_production symbol) derived

end Closed

end TreeWalk
