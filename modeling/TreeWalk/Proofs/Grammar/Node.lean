import TreeWalk.Proofs.Grammar.Reads

/-!
# What declarations and statements are read from

The written form of a well-shaped tree is read as the tree, whatever it ends in front of.
The proof goes along the way of writing, with one lemma for each form. The equivalences
at the end put both directions together.
-/

namespace TreeWalk.Grammar

variable {ending : Span}

section ReadsBack

variable {node : Node} {tokens rest : List Token}

/-- The written form is read as the node, whatever the node ends in front of. -/
def DeclarationReadsBack (ending : Span) (node : Node) (tokens : List Token) : Prop :=
  ∀ rest, node.Stops rest → (declaration ending (tokens ++ rest)).Succeeds node rest

/-- The same where only statements are read. -/
def StatementReadsBack (ending : Span) (node : Node) (tokens : List Token) : Prop :=
  ∀ rest, node.Stops rest → (statement ending (tokens ++ rest)).Succeeds node rest

/-- A statement is read as a declaration as well. -/
theorem StatementReadsBack.declaration (stated : StatementReadsBack ending node tokens)
    (written : node.Written tokens) (shaped : node.WellShaped) (statement : node.isStatement) :
    DeclarationReadsBack ending node tokens := by
  intro rest stops
  have read := stated rest stops
  obtain ⟨token, after, rfl, noClass, noFunction, noVariable⟩ :=
    written.first_of_isStatement shaped statement
  rw [List.cons_append] at read ⊢
  rw [Grammar.declaration]
  split
  next same => cases noClass same
  next same => cases noFunction same
  next same => cases noVariable same
  next => exact read

/-- Expression statements are read back. -/
theorem StatementReadsBack.expressionStatement {value : Expr} {semicolon : Span}
    (shaped : value.WellShaped) (written : value.Written tokens) :
    StatementReadsBack ending (.expressionStatement value value.span)
      (tokens ++ [⟨.punctuator .semicolon, semicolon⟩]) := by
  intro rest _
  have read : (Grammar.expressionStatement ending
      (tokens ++ ⟨.punctuator .semicolon, semicolon⟩ :: rest)).Succeeds _ rest :=
    succeeds_expressionStatement.2 ⟨value, tokens, semicolon, rfl, shaped, written, rfl⟩
  obtain ⟨token, after, rfl, opens, _⟩ := written.first shaped
  rw [List.append_assoc, List.cons_append, List.cons_append, List.nil_append] at *
  rw [statement]
  split
  case h_7 => exact read
  all_goals
    next same =>
      rw [same] at opens
      cases opens

/-- Print statements are read back. -/
theorem StatementReadsBack.print {value : Expr} {semicolon : Span} (shaped : value.WellShaped)
    (written : value.Written tokens) :
    StatementReadsBack ending (.print value span)
      (⟨.keyword .printWord, span⟩ :: tokens ++ [⟨.punctuator .semicolon, semicolon⟩]) := by
  intro rest _
  rw [List.append_assoc, List.cons_append, statement]
  exact Reading.succeeds_widen.2
    (succeeds_printStatement.2 ⟨value, tokens, semicolon, rfl, shaped, written, rfl⟩)

/-- Return statements are read back. -/
theorem StatementReadsBack.returned {value : Option Expr} {semicolon : Span}
    (shaped : ∀ inner ∈ value, inner.WellShaped) (written : Expr.OptionWritten value tokens) :
    StatementReadsBack ending (.returned value span)
      (⟨.keyword .returnWord, span⟩ :: tokens ++ [⟨.punctuator .semicolon, semicolon⟩]) := by
  intro rest _
  rw [List.append_assoc, List.cons_append, statement]
  exact Reading.succeeds_widen.2
    (succeeds_returnStatement.2 ⟨value, tokens, semicolon, rfl, shaped, written, rfl⟩)

/-- Variable declarations are read back. -/
theorem DeclarationReadsBack.variableDeclaration {name : Identifier} {value : Option Expr}
    {semicolon : Span} (shaped : ∀ inner ∈ value, inner.WellShaped)
    (written : Expr.InitializerWritten value tokens) :
    DeclarationReadsBack ending (.variableDeclaration name value span)
      (⟨.keyword .varWord, span⟩ :: name.token :: tokens ++
        [⟨.punctuator .semicolon, semicolon⟩]) := by
  intro rest _
  rw [List.append_assoc, List.cons_append, declaration]
  exact Reading.succeeds_widen.2
    (succeeds_variableDeclaration.2 ⟨name, value, tokens, semicolon, rfl, shaped, written, rfl⟩)

/-- The written nodes are read up to the closing brace behind them. -/
def BodyReadsBack (ending : Span) (nodes : List Node) (tokens : List Token) : Prop :=
  ∀ finish rest, (blockRest ending
    (tokens ++ ⟨.punctuator .rightBrace, finish⟩ :: rest)).Succeeds nodes rest

/-- The written function is read as the function, at any place. -/
def FunctionReadsBack (ending : Span) (declared : Function) (tokens : List Token) : Prop :=
  ∀ rest, (function ending declared.span (tokens ++ rest)).Succeeds declared rest

/-- The written methods are read up to the closing brace behind them. -/
def MethodsReadBack (ending : Span) (functions : List Function) (tokens : List Token) : Prop :=
  ∀ finish rest, (methods ending
    (tokens ++ ⟨.punctuator .rightBrace, finish⟩ :: rest)).Succeeds functions rest

/-- Nothing stands between the braces of no nodes. -/
theorem BodyReadsBack.nil : BodyReadsBack ending [] [] := by
  intro finish rest
  rw [List.nil_append, blockRest, if_pos rfl]
  exact Reading.succeeds_accept.2 ⟨rfl, rfl⟩

/-- A node in a block ends in front of the nodes behind it and of the closing brace. -/
theorem BodyReadsBack.cons {nodes : List Node} {others : List Token}
    (first : DeclarationReadsBack ending node tokens) (written : node.Written tokens)
    (shaped : node.WellShaped) (behind : BodyReadsBack ending nodes others)
    (writtenOthers : Node.AllWritten nodes others) (shapedOthers : Node.AllWellShaped nodes) :
    BodyReadsBack ending (node :: nodes) (tokens ++ others) := by
  intro finish rest
  have stops : node.Stops (others ++ ⟨.punctuator .rightBrace, finish⟩ :: rest) :=
    writtenOthers.stops shapedOthers node nofun
  have read := first _ stops
  obtain ⟨token, after, rfl, opens, _⟩ := written.first shaped
  have different : token.kind ≠ .punctuator .rightBrace := by
    intro same
    rw [same] at opens
    cases opens
  rw [List.append_assoc, List.cons_append] at *
  rw [blockRest, if_neg different]
  exact read.andThen fun _ => Reading.succeeds_map.2 ⟨nodes, behind finish rest, rfl⟩

/-- A block holds at least one node. -/
theorem BodyReadsBack.blockBody {nodes : List Node} {finish : Span}
    (held : BodyReadsBack ending nodes tokens) (nonempty : nodes ≠ []) :
    (blockBody ending (tokens ++ ⟨.punctuator .rightBrace, finish⟩ :: rest)).Succeeds
      nodes rest := by
  have read := held finish rest
  generalize tokens ++ ⟨.punctuator .rightBrace, finish⟩ :: rest = whole at read ⊢
  rcases whole with _ | ⟨token, whole⟩
  · rw [blockRest] at read
    cases Reading.not_succeeds_reject read
  · rw [blockRest] at read
    split at read
    next =>
      obtain ⟨rfl, _⟩ := Reading.succeeds_accept.1 read
      cases nonempty rfl
    next =>
      obtain ⟨node, middle, _, first, behind⟩ := Reading.succeeds_andThen.1 read
      rw [Grammar.blockBody]
      exact first.andThen fun _ => Reading.succeeds_map.2 (Reading.succeeds_map.1 behind)

/-- Blocks are read back. -/
theorem BodyReadsBack.block {nodes : List Node} {finish : Span}
    (held : BodyReadsBack ending nodes tokens) (nonempty : nodes ≠ []) :
    StatementReadsBack ending (.block nodes span)
      (⟨.punctuator .leftBrace, span⟩ :: tokens ++ [⟨.punctuator .rightBrace, finish⟩]) := by
  intro rest _
  rw [List.append_assoc, List.cons_append, statement]
  exact Reading.succeeds_map.2 ⟨nodes, held.blockBody nonempty, rfl⟩

/-- A conditional without `else` ends in front of anything but an `else`. -/
theorem StatementReadsBack.conditional {condition : Expr} {asked : List Token}
    (shapedCondition : condition.WellShaped) (writtenCondition : condition.Written asked)
    (positive : StatementReadsBack ending node tokens) (written : node.Written tokens)
    (shaped : node.WellShaped) (noMinus : ¬ node.startsWithMinus) :
    StatementReadsBack ending (.conditional condition node none span)
      (⟨.keyword .ifWord, span⟩ :: asked ++ tokens) := by
  intro rest stops
  have different : peek rest ≠ some (.keyword .elseWord) := stops (by simp [Node.endsOpen])
  have test : (expression ending (asked ++ (tokens ++ rest))).Succeeds condition (tokens ++ rest) :=
    succeeds_condition.2 ⟨shapedCondition, (written.ends_condition shaped).2 noMinus, asked,
      writtenCondition, rfl⟩
  rw [List.append_assoc, List.cons_append, statement]
  refine Reading.succeeds_widen.2 ?_
  rw [Grammar.conditional]
  refine test.andThen fun _ => (positive rest fun _ => different).andThen fun _ => ?_
  rcases rest with _ | ⟨token, rest⟩
  · exact Reading.succeeds_accept.2 ⟨rfl, rfl⟩
  · have other : token.kind ≠ .keyword .elseWord := fun same => different (by simp [same])
    simp only [if_neg other]
    exact Reading.succeeds_accept.2 ⟨rfl, rfl⟩

/-- The first branch of two does not take the `else` for itself. -/
theorem StatementReadsBack.alternative {condition : Expr} {elseBranch : Node} {between : Span}
    {asked other : List Token} (shapedCondition : condition.WellShaped)
    (writtenCondition : condition.Written asked)
    (positive : StatementReadsBack ending node tokens) (written : node.Written tokens)
    (shaped : node.WellShaped) (noMinus : ¬ node.startsWithMinus) (closed : ¬ node.endsOpen)
    (negative : StatementReadsBack ending elseBranch other) :
    StatementReadsBack ending (.conditional condition node (some elseBranch) span)
      (⟨.keyword .ifWord, span⟩ :: asked ++ tokens ++ ⟨.keyword .elseWord, between⟩ :: other) := by
  intro rest stops
  have test : (expression ending (asked ++ (tokens ++
      ⟨.keyword .elseWord, between⟩ :: (other ++ rest)))).Succeeds condition _ :=
    succeeds_condition.2 ⟨shapedCondition, (written.ends_condition shaped).2 noMinus, asked,
      writtenCondition, rfl⟩
  have chosen := positive (⟨.keyword .elseWord, between⟩ :: (other ++ rest))
    (Node.stops_of_closed closed)
  have whole : ⟨.keyword .ifWord, span⟩ :: asked ++ tokens ++
      ⟨.keyword .elseWord, between⟩ :: other ++ rest =
      ⟨.keyword .ifWord, span⟩ :: (asked ++ (tokens ++
        ⟨.keyword .elseWord, between⟩ :: (other ++ rest))) := by simp
  rw [whole, statement]
  refine Reading.succeeds_widen.2 ?_
  rw [Grammar.conditional]
  refine test.andThen fun _ => chosen.andThen fun _ => ?_
  simp only [if_true]
  exact Reading.succeeds_map.2 ⟨elseBranch, negative rest stops, rfl⟩

/-- While loops are read back. -/
theorem StatementReadsBack.whileLoop {condition : Expr} {asked : List Token}
    (shapedCondition : condition.WellShaped) (writtenCondition : condition.Written asked)
    (again : StatementReadsBack ending node tokens) (written : node.Written tokens)
    (shaped : node.WellShaped) (noMinus : ¬ node.startsWithMinus) :
    StatementReadsBack ending (.whileLoop condition node span)
      (⟨.keyword .whileWord, span⟩ :: asked ++ tokens) := by
  intro rest stops
  have test : (expression ending (asked ++ (tokens ++ rest))).Succeeds condition (tokens ++ rest) :=
    succeeds_condition.2 ⟨shapedCondition, (written.ends_condition shaped).2 noMinus, asked,
      writtenCondition, rfl⟩
  rw [List.append_assoc, List.cons_append, statement]
  refine Reading.succeeds_widen.2 ?_
  rw [Grammar.whileLoop]
  exact test.andThen fun _ => Reading.succeeds_map.2 ⟨node, again rest stops, rfl⟩

/-- For loops are read back. -/
theorem StatementReadsBack.forLoop {initializer : Option Node} {condition increment : Option Expr}
    {first asked step : List Token} {opening semicolon closing : Span}
    (shapedFirst : ∀ clause ∈ initializer, clause.WellShaped ∧ clause.isInitializer)
    (writtenFirst : Node.ClauseWritten initializer first)
    (shapedCondition : ∀ value ∈ condition, value.WellShaped)
    (writtenCondition : Expr.OptionWritten condition asked)
    (shapedIncrement : ∀ value ∈ increment, value.WellShaped)
    (writtenIncrement : Expr.OptionWritten increment step)
    (again : StatementReadsBack ending node tokens) :
    StatementReadsBack ending (.forLoop initializer condition increment node span)
      (⟨.keyword .forWord, span⟩ :: ⟨.punctuator .leftParen, opening⟩ :: first ++ asked ++
        ⟨.punctuator .semicolon, semicolon⟩ :: step ++
        ⟨.punctuator .rightParen, closing⟩ :: tokens) := by
  intro rest stops
  -- The clauses are read one by one, so the tokens are grouped behind each of them.
  have whole : ⟨.keyword .forWord, span⟩ :: ⟨.punctuator .leftParen, opening⟩ :: first ++ asked ++
      ⟨.punctuator .semicolon, semicolon⟩ :: step ++
      ⟨.punctuator .rightParen, closing⟩ :: tokens ++ rest =
      ⟨.keyword .forWord, span⟩ :: ⟨.punctuator .leftParen, opening⟩ :: (first ++ (asked ++
        ⟨.punctuator .semicolon, semicolon⟩ :: (step ++
          ⟨.punctuator .rightParen, closing⟩ :: (tokens ++ rest)))) := by simp
  rw [whole, statement]
  refine Reading.succeeds_widen.2 ?_
  rw [Grammar.forLoop]
  refine (succeeds_expect.2 ⟨opening, rfl, rfl⟩).andThen fun _ => ?_
  refine (succeeds_forInitializer.2 ⟨shapedFirst, first, writtenFirst, rfl⟩).andThen fun _ => ?_
  refine ((succeeds_optionalExpression closes_semicolon).2
    ⟨shapedCondition, asked, writtenCondition, rfl⟩).andThen fun _ => ?_
  refine (succeeds_expect.2 ⟨semicolon, rfl, rfl⟩).andThen fun _ => ?_
  refine ((succeeds_optionalExpression closes_rightParen).2
    ⟨shapedIncrement, step, writtenIncrement, rfl⟩).andThen fun _ => ?_
  refine (succeeds_expect.2 ⟨closing, rfl, rfl⟩).andThen fun _ => ?_
  exact Reading.succeeds_map.2 ⟨node, again rest stops, rfl⟩

/-- A function is its name, its parameters and its block. -/
theorem BodyReadsBack.function {name : Identifier} {parameters : List Identifier}
    {body : List Node} {names : List Token} {opening closing start finish : Span}
    (listed : Identifier.ListWritten parameters names) (held : BodyReadsBack ending body tokens)
    (nonempty : body ≠ []) :
    FunctionReadsBack ending (.mk name parameters body span)
      (name.token :: ⟨.punctuator .leftParen, opening⟩ :: names ++
        ⟨.punctuator .rightParen, closing⟩ :: ⟨.punctuator .leftBrace, start⟩ :: tokens ++
        [⟨.punctuator .rightBrace, finish⟩]) := by
  intro rest
  have whole : name.token :: ⟨.punctuator .leftParen, opening⟩ :: names ++
      ⟨.punctuator .rightParen, closing⟩ :: ⟨.punctuator .leftBrace, start⟩ :: tokens ++
      [⟨.punctuator .rightBrace, finish⟩] ++ rest =
      name.token :: (⟨.punctuator .leftParen, opening⟩ :: names ++
        ⟨.punctuator .rightParen, closing⟩ :: ⟨.punctuator .leftBrace, start⟩ :: (tokens ++
          ⟨.punctuator .rightBrace, finish⟩ :: rest)) := by simp
  rw [whole, Grammar.function]
  refine (succeeds_identifier.2 rfl).andThen fun _ => ?_
  refine (succeeds_parameters.2 ⟨opening, names, closing, listed, rfl⟩).andThen fun _ => ?_
  refine (succeeds_expect.2 ⟨start, rfl, rfl⟩).andThen fun _ => ?_
  exact Reading.succeeds_map.2 ⟨body, held.blockBody nonempty, rfl⟩

/-- Nothing stands between the braces of no methods. -/
theorem MethodsReadBack.nil : MethodsReadBack ending [] [] := by
  intro finish rest
  rw [List.nil_append, methods, if_pos rfl]
  exact Reading.succeeds_accept.2 ⟨rfl, rfl⟩

/-- A method stands at its name. -/
theorem MethodsReadBack.cons {method : Function} {others : List Function}
    {otherTokens : List Token} (first : FunctionReadsBack ending method tokens)
    (written : method.Written tokens) (place : method.span = method.name.span)
    (behind : MethodsReadBack ending others otherTokens) :
    MethodsReadBack ending (method :: others) (tokens ++ otherTokens) := by
  intro finish rest
  have read : (function ending method.name.token.span (tokens ++ (otherTokens ++
      ⟨.punctuator .rightBrace, finish⟩ :: rest))).Succeeds method _ := place ▸ first _
  obtain ⟨after, same⟩ : ∃ after, tokens = method.name.token :: after := by
    cases written
    exact ⟨_, rfl⟩
  rw [same, List.cons_append] at read
  rw [same, List.append_assoc, List.cons_append, methods, if_neg nofun]
  exact read.andThen fun _ => Reading.succeeds_map.2 ⟨others, behind finish rest, rfl⟩

/-- Function declarations are read back. -/
theorem FunctionReadsBack.functionDeclaration {declared : Function}
    (read : FunctionReadsBack ending declared tokens) :
    DeclarationReadsBack ending (.functionDeclaration declared)
      (⟨.keyword .funWord, declared.span⟩ :: tokens) := by
  intro rest _
  rw [List.cons_append, declaration]
  exact Reading.succeeds_map.2 ⟨declared, read rest, rfl⟩

/-- Classes are read back. -/
theorem MethodsReadBack.classDeclaration {name : Identifier} {parent : Option Identifier}
    {functions : List Function} {above : List Token} {start finish : Span}
    (writtenParent : Identifier.SuperclassWritten parent above)
    (held : MethodsReadBack ending functions tokens) :
    DeclarationReadsBack ending (.classDeclaration name parent functions span)
      (⟨.keyword .classWord, span⟩ :: name.token :: above ++
        ⟨.punctuator .leftBrace, start⟩ :: tokens ++ [⟨.punctuator .rightBrace, finish⟩]) := by
  intro rest _
  have whole : ⟨.keyword .classWord, span⟩ :: name.token :: above ++
      ⟨.punctuator .leftBrace, start⟩ :: tokens ++ [⟨.punctuator .rightBrace, finish⟩] ++ rest =
      ⟨.keyword .classWord, span⟩ :: name.token :: (above ++
        ⟨.punctuator .leftBrace, start⟩ :: (tokens ++
          ⟨.punctuator .rightBrace, finish⟩ :: rest)) := by simp
  rw [whole, declaration]
  refine Reading.succeeds_widen.2 ?_
  rw [Grammar.classDeclaration]
  refine (succeeds_identifier.2 rfl).andThen fun _ => ?_
  refine (succeeds_superclass.2 ⟨above, writtenParent, rfl⟩).andThen fun _ => ?_
  refine (succeeds_expect.2 ⟨start, rfl, rfl⟩).andThen fun _ => ?_
  exact Reading.succeeds_map.2 ⟨functions, held finish rest, rfl⟩

end ReadsBack

mutual

/-- Every well-shaped node is read back from its written form, and a statement also where
only statements are read. -/
theorem readsBack_of_written {node : Node} {tokens : List Token} :
    node.Written tokens → node.WellShaped →
      DeclarationReadsBack ending node tokens ∧
        (node.isStatement → StatementReadsBack ending node tokens)
  | .expression _, shaped => nomatch shaped
  | .variableDeclaration _ initial, shaped =>
      ⟨.variableDeclaration (by simpa [Node.WellShaped] using shaped) initial, nofun⟩
  | .functionDeclaration declared, shaped =>
      ⟨(functionReadsBack_of_written declared
        (by simpa [Node.WellShaped] using shaped)).functionDeclaration, nofun⟩
  | .classDeclaration _ _ above held, shaped =>
      ⟨(methodsReadBack_of_written held
        (by simpa [Node.WellShaped] using shaped)).classDeclaration above, nofun⟩
  -- A statement is read as a declaration too, since no keyword of declarations opens it.
  | .expressionStatement semicolon stated, shaped =>
      have back := StatementReadsBack.expressionStatement shaped.1 stated
      ⟨back.declaration (.expressionStatement semicolon stated) shaped rfl, fun _ => back⟩
  | .print semicolon shown, shaped =>
      have back := StatementReadsBack.print shaped shown
      ⟨back.declaration (.print semicolon shown) shaped rfl, fun _ => back⟩
  | .returned semicolon result, shaped =>
      have back := StatementReadsBack.returned shaped result
      ⟨back.declaration (.returned semicolon result) shaped rfl, fun _ => back⟩
  | .block finish held, shaped =>
      have back := BodyReadsBack.block (bodyReadsBack_of_written held shaped.2) shaped.1
      ⟨back.declaration (.block finish held) shaped rfl, fun _ => back⟩
  | .conditional test positive, shaped =>
      have ⟨shapedTest, shapedBranch, statement, noMinus⟩ := shaped
      have branch := (readsBack_of_written positive shapedBranch).2 statement
      have back := branch.conditional shapedTest test positive shapedBranch noMinus
      ⟨back.declaration (.conditional test positive) shaped rfl, fun _ => back⟩
  | .alternative between test positive negative, shaped =>
      have ⟨shapedTest, ⟨shapedBranch, statement, noMinus⟩, closed, shapedElse, statementElse⟩ :=
        shaped
      have branch := (readsBack_of_written positive shapedBranch).2 statement
      have other := (readsBack_of_written negative shapedElse).2 statementElse
      have back := branch.alternative shapedTest test positive shapedBranch noMinus closed other
      ⟨back.declaration (.alternative between test positive negative) shaped rfl, fun _ => back⟩
  | .whileLoop test again, shaped =>
      have ⟨shapedTest, shapedBody, statement, noMinus⟩ := shaped
      have body := (readsBack_of_written again shapedBody).2 statement
      have back := body.whileLoop shapedTest test again shapedBody noMinus
      ⟨back.declaration (.whileLoop test again) shaped rfl, fun _ => back⟩
  | .forLoop opening semicolon closing initial test advance again, shaped =>
      have ⟨shapedFirst, shapedTest, shapedAdvance, shapedBody, statement⟩ :=
        Node.wellShaped_forLoop.1 shaped
      have body := (readsBack_of_written again shapedBody).2 statement
      have back := body.forLoop shapedFirst initial shapedTest test shapedAdvance advance
      ⟨back.declaration (.forLoop opening semicolon closing initial test advance again) shaped rfl,
        fun _ => back⟩

/-- Well-shaped nodes in a block are read back. -/
theorem bodyReadsBack_of_written {nodes : List Node} {tokens : List Token} :
    Node.AllWritten nodes tokens → Node.AllWellShaped nodes → BodyReadsBack ending nodes tokens
  | .nil, _ => .nil
  | .cons first behind, shaped =>
      BodyReadsBack.cons (readsBack_of_written first shaped.1).1 first shaped.1
        (bodyReadsBack_of_written behind shaped.2) behind shaped.2

/-- A well-shaped function is read back. -/
theorem functionReadsBack_of_written {declared : Function} {tokens : List Token} :
    declared.Written tokens → declared.WellShaped → FunctionReadsBack ending declared tokens
  | .mk _ _ _ _ listed held, shaped =>
      (bodyReadsBack_of_written held shaped.2).function listed shaped.1

/-- Well-shaped methods are read back. -/
theorem methodsReadBack_of_written {functions : List Function} {tokens : List Token} :
    Function.MethodsWritten functions tokens → Function.MethodsWellShaped functions →
      MethodsReadBack ending functions tokens
  | .nil, _ => .nil
  | .cons first place behind, shaped =>
      MethodsReadBack.cons (functionReadsBack_of_written first shaped.1) first place
        (methodsReadBack_of_written behind shaped.2.2)

end

section Exactly

variable {node : Node} {nodes : List Node} {tokens rest : List Token}

/-- Declarations are read exactly from the written forms of well-shaped nodes. -/
theorem succeeds_declaration :
    (declaration ending tokens).Succeeds node rest ↔ node.Reads tokens rest := by
  constructor
  · exact reads_of_declaration tokens
  · rintro ⟨shaped, stops, consumed, written, rfl⟩
    exact (readsBack_of_written written shaped).1 rest stops

/-- Statements are read exactly from the written forms of well-shaped statements. -/
theorem succeeds_statement :
    (statement ending tokens).Succeeds node rest ↔ node.isStatement ∧ node.Reads tokens rest := by
  constructor
  · exact reads_of_statement tokens
  · rintro ⟨statement, shaped, stops, consumed, written, rfl⟩
    exact (readsBack_of_written written shaped).2 statement rest stops

/-- Blocks are read exactly from the written forms of nodes and a closing brace. -/
theorem succeeds_blockBody :
    (blockBody ending tokens).Succeeds nodes rest ↔
      nodes ≠ [] ∧ Node.BodyReads nodes tokens rest := by
  constructor
  · exact reads_of_blockBody tokens
  · rintro ⟨nonempty, shaped, consumed, finish, written, rfl⟩
    exact (bodyReadsBack_of_written written shaped).blockBody nonempty

end Exactly

end TreeWalk.Grammar
