import TreeWalk.Proofs.Grammar.Clause

/-!
# What readings of declarations and statements take

The rules for declarations, statements, blocks, functions and methods succeed only on the
written forms of well-shaped trees. The proof goes along the recursion of the rules.
What ends a node is one token: behind an open conditional an `else` does not, behind a
condition a minus sign does not.
-/

namespace TreeWalk

/-- The tokens are those of a well-shaped node that ends there, and then the rest. -/
structure Node.Reads (node : Node) (tokens rest : List Token) : Prop where
  shaped : node.WellShaped
  stops : node.Stops rest
  written : ∃ consumed, node.Written consumed ∧ tokens = consumed ++ rest

/-- The tokens are those of a well-shaped function, and then the rest. -/
structure Function.Reads (function : Function) (tokens rest : List Token) : Prop where
  shaped : function.WellShaped
  written : ∃ consumed, function.Written consumed ∧ tokens = consumed ++ rest

/-- The tokens are those of well-shaped nodes, a closing brace, and then the rest. -/
structure Node.BodyReads (nodes : List Node) (tokens rest : List Token) : Prop where
  shaped : Node.AllWellShaped nodes
  written : ∃ consumed finish, Node.AllWritten nodes consumed ∧
    tokens = consumed ++ ⟨.punctuator .rightBrace, finish⟩ :: rest

/-- The tokens are those of well-shaped methods, a closing brace, and then the rest. -/
structure Function.MethodsReads (methods : List Function) (tokens rest : List Token) : Prop where
  shaped : Function.MethodsWellShaped methods
  written : ∃ consumed finish, Function.MethodsWritten methods consumed ∧
    tokens = consumed ++ ⟨.punctuator .rightBrace, finish⟩ :: rest

namespace Node

variable {node : Node} {tokens rest : List Token}

/-- A node that does not end open ends anywhere. -/
theorem stops_of_closed (closed : ¬ node.endsOpen) : node.Stops rest :=
  fun ends => absurd ends closed

/-- A token that is no `else` ends every node. -/
theorem stops_cons {token : Token} (different : token.kind ≠ .keyword .elseWord) :
    node.Stops (token :: rest) := by
  intro _ same
  exact different (Option.some.inj same)

/-- What a condition can stand in front of does not begin with a minus sign. -/
theorem Written.ends_condition (written : node.Written tokens) (shaped : node.WellShaped) :
    Tier.assignment.Stops (tokens ++ rest) ↔ ¬ node.startsWithMinus := by
  obtain ⟨token, after, rfl, opens, minus⟩ := written.first shaped
  rw [← minus]
  exact Tier.stops_assignment_cons opens

/-- A statement does not begin with the keyword of a declaration. -/
theorem Written.first_of_isStatement (written : node.Written tokens)
    (shaped : node.WellShaped) (statement : node.isStatement) :
    ∃ token rest, tokens = token :: rest ∧ token.kind ≠ .keyword .classWord ∧
      token.kind ≠ .keyword .funWord ∧ token.kind ≠ .keyword .varWord := by
  cases written with
  | expressionStatement _ value =>
      obtain ⟨token, after, rfl, opens, _⟩ := value.first shaped.1
      refine ⟨token, _, rfl, ?_, ?_, ?_⟩
      all_goals
        intro same
        rw [same] at opens
        cases opens
  | expression | variableDeclaration | classDeclaration | functionDeclaration => cases statement
  | _ => exact ⟨_, _, rfl, nofun, nofun, nofun⟩

/-- The shape of a `for` loop, whether or not it has a first clause. -/
theorem wellShaped_forLoop {initializer : Option Node} {condition increment : Option Expr}
    {body : Node} {span : Span} :
    (Node.forLoop initializer condition increment body span).WellShaped ↔
      (∀ clause ∈ initializer, clause.WellShaped ∧ clause.isInitializer) ∧
        (∀ value ∈ condition, value.WellShaped) ∧ (∀ value ∈ increment, value.WellShaped) ∧
        body.WellShaped ∧ body.isStatement := by
  cases initializer <;> simp [Node.WellShaped]

/-- Nodes never begin with an `else`. -/
theorem AllWritten.stops {nodes : List Node} (written : Node.AllWritten nodes tokens)
    (shaped : Node.AllWellShaped nodes) (node : Node) {rest : List Token}
    (closed : Grammar.peek rest ≠ some (.keyword .elseWord)) : node.Stops (tokens ++ rest) := by
  intro _
  cases written with
  | nil => exact closed
  | cons next _ =>
      obtain ⟨token, after, rfl, opens, _⟩ := next.first shaped.1
      intro same
      rw [Option.some.inj same] at opens
      cases opens

end Node

namespace Grammar

variable {ending : Span}

section Readings

variable {span : Span} {node : Node} {rest : List Token}

/-- An expression in front of what does not go on with it. -/
theorem succeeds_condition {tokens : List Token} {value : Expr} :
    (expression ending tokens).Succeeds value rest ↔
      value.WellShaped ∧ Tier.assignment.Stops rest ∧
        ∃ consumed, value.Written consumed ∧ tokens = consumed ++ rest := by
  rw [expression, succeeds_expressionOf]
  constructor
  · rintro ⟨shaped, _, stops, written⟩
    exact ⟨shaped, stops, written⟩
  · rintro ⟨shaped, stops, written⟩
    exact ⟨shaped, Tier.looseness_le_assignment _, stops, written⟩

/-- A variable declaration with its keyword. -/
theorem reads_of_variableDeclaration {tokens : List Token}
    (success : (variableDeclaration ending span tokens).Succeeds node rest) :
    node.Reads (⟨.keyword .varWord, span⟩ :: tokens) rest := by
  obtain ⟨name, value, consumed, semicolon, rfl, shaped, written, rfl⟩ :=
    succeeds_variableDeclaration.1 success
  refine ⟨?_, Node.stops_of_closed (by simp [Node.endsOpen]), _,
    .variableDeclaration semicolon written, by simp⟩
  simpa [Node.WellShaped] using shaped

/-- An expression statement. -/
theorem reads_of_expressionStatement {tokens : List Token}
    (success : (expressionStatement ending tokens).Succeeds node rest) :
    node.isStatement ∧ node.Reads tokens rest := by
  obtain ⟨value, consumed, semicolon, rfl, shaped, written, rfl⟩ :=
    succeeds_expressionStatement.1 success
  refine ⟨rfl, ?_, Node.stops_of_closed (by simp [Node.endsOpen]), _,
    .expressionStatement semicolon written, by simp⟩
  simpa [Node.WellShaped] using shaped

/-- A print statement with its keyword. -/
theorem reads_of_printStatement {tokens : List Token}
    (success : (printStatement ending span tokens).Succeeds node rest) :
    node.isStatement ∧ node.Reads (⟨.keyword .printWord, span⟩ :: tokens) rest := by
  obtain ⟨value, consumed, semicolon, rfl, shaped, written, rfl⟩ :=
    succeeds_printStatement.1 success
  refine ⟨rfl, ?_, Node.stops_of_closed (by simp [Node.endsOpen]), _,
    .print semicolon written, by simp⟩
  simpa [Node.WellShaped] using shaped

/-- A return statement with its keyword. -/
theorem reads_of_returnStatement {tokens : List Token}
    (success : (returnStatement ending span tokens).Succeeds node rest) :
    node.isStatement ∧ node.Reads (⟨.keyword .returnWord, span⟩ :: tokens) rest := by
  obtain ⟨value, consumed, semicolon, rfl, shaped, written, rfl⟩ :=
    succeeds_returnStatement.1 success
  refine ⟨rfl, ?_, Node.stops_of_closed (by simp [Node.endsOpen]), _,
    .returned semicolon written, by simp⟩
  simpa [Node.WellShaped] using shaped

end Readings

mutual

/-- What a declaration is read from. -/
theorem reads_of_declaration {node : Node} {rest : List Token} : (tokens : List Token) →
    (declaration ending tokens).Succeeds node rest →
    node.Reads tokens rest
  | [], success => by
      rw [declaration] at success
      exact (reads_of_statement [] success).2
  | ⟨kind, place⟩ :: tokens, success => by
      rw [declaration] at success
      split at success
      next same =>
        cases same
        exact reads_of_classDeclaration tokens (Reading.succeeds_widen.1 success)
      next same =>
        cases same
        obtain ⟨declared, present, rfl⟩ := Reading.succeeds_map.1 success
        obtain ⟨rfl, shaped, consumed, written, rfl⟩ := reads_of_function tokens present
        exact ⟨by simpa [Node.WellShaped] using shaped,
          Node.stops_of_closed (by simp [Node.endsOpen]), _, .functionDeclaration written, rfl⟩
      next same =>
        cases same
        exact reads_of_variableDeclaration (Reading.succeeds_widen.1 success)
      next => exact (reads_of_statement (⟨kind, place⟩ :: tokens) success).2
termination_by tokens => tokens.length * 10 + 1

/-- What a statement is read from. -/
theorem reads_of_statement {node : Node} {rest : List Token} : (tokens : List Token) →
    (statement ending tokens).Succeeds node rest →
    node.isStatement ∧ node.Reads tokens rest
  | [], success => by
      rw [statement] at success
      exact reads_of_expressionStatement success
  | ⟨kind, place⟩ :: tokens, success => by
      rw [statement] at success
      split at success
      next same =>
        cases same
        obtain ⟨body, held, rfl⟩ := Reading.succeeds_map.1 success
        obtain ⟨nonempty, shaped, consumed, finish, written, rfl⟩ := reads_of_blockBody tokens held
        refine ⟨rfl, ?_, Node.stops_of_closed (by simp [Node.endsOpen]), _,
          .block finish written, by simp⟩
        simpa [Node.WellShaped] using ⟨nonempty, shaped⟩
      next same =>
        cases same
        exact reads_of_conditional tokens (Reading.succeeds_widen.1 success)
      next same =>
        cases same
        exact reads_of_whileLoop tokens (Reading.succeeds_widen.1 success)
      next same =>
        cases same
        exact reads_of_forLoop tokens (Reading.succeeds_widen.1 success)
      next same =>
        cases same
        exact reads_of_returnStatement (Reading.succeeds_widen.1 success)
      next same =>
        cases same
        exact reads_of_printStatement (Reading.succeeds_widen.1 success)
      next => exact reads_of_expressionStatement success
termination_by tokens => tokens.length * 10

/-- What a block is read from, behind its opening brace. -/
theorem reads_of_blockBody {nodes : List Node} {rest : List Token} (tokens : List Token)
    (success : (blockBody ending tokens).Succeeds nodes rest) :
    nodes ≠ [] ∧ Node.BodyReads nodes tokens rest := by
  rw [blockBody] at success
  obtain ⟨node, middle, _, first, success⟩ := Reading.succeeds_andThen.1 success
  have shorter : middle.length ≤ tokens.length - 1 := first.length_le
  obtain ⟨others, behind, rfl⟩ := Reading.succeeds_map.1 success
  obtain ⟨shaped, _, consumed, written, whole⟩ := reads_of_declaration tokens first
  obtain ⟨shapedOthers, inside, finish, writtenOthers, same⟩ := reads_of_blockRest middle behind
  refine ⟨nofun, ⟨shaped, shapedOthers⟩, _, finish, .cons written writtenOthers, ?_⟩
  rw [whole, same, List.append_assoc]
termination_by tokens.length * 10 + 3

/-- What the rest of a block is read from. -/
theorem reads_of_blockRest {nodes : List Node} {rest : List Token} : (tokens : List Token) →
    (blockRest ending tokens).Succeeds nodes rest →
    Node.BodyReads nodes tokens rest
  | [], success => by
      rw [blockRest] at success
      cases Reading.not_succeeds_reject success
  | ⟨kind, place⟩ :: tokens, success => by
      rw [blockRest] at success
      split at success
      next same =>
        cases same
        obtain ⟨rfl, rfl⟩ := Reading.succeeds_accept.1 success
        exact ⟨trivial, [], place, .nil, rfl⟩
      next =>
        obtain ⟨node, middle, _, first, success⟩ := Reading.succeeds_andThen.1 success
        have shorter : middle.length ≤ tokens.length + 1 - 1 := first.length_le
        obtain ⟨others, behind, rfl⟩ := Reading.succeeds_map.1 success
        obtain ⟨shaped, _, consumed, written, whole⟩ :=
          reads_of_declaration (⟨kind, place⟩ :: tokens) first
        obtain ⟨shapedOthers, inside, finish, writtenOthers, same⟩ :=
          reads_of_blockRest middle behind
        refine ⟨⟨shaped, shapedOthers⟩, _, finish, .cons written writtenOthers, ?_⟩
        rw [whole, same, List.append_assoc]
termination_by tokens => tokens.length * 10 + 2

/-- What a conditional is read from, with its keyword. -/
theorem reads_of_conditional {span : Span} {node : Node} {rest : List Token} (tokens : List Token)
    (success : (conditional ending span tokens).Succeeds node rest) :
    node.isStatement ∧ node.Reads (⟨.keyword .ifWord, span⟩ :: tokens) rest := by
  rw [conditional] at success
  obtain ⟨condition, middle, _, test, success⟩ := Reading.succeeds_andThen.1 success
  have shorter : middle.length ≤ tokens.length - 1 := test.length_le
  obtain ⟨shapedCondition, ends, asked, writtenCondition, whole⟩ := succeeds_condition.1 test
  obtain ⟨thenBranch, after, _, positive, success⟩ := Reading.succeeds_andThen.1 success
  obtain ⟨statement, shaped, stops, chosen, written, same⟩ := reads_of_statement middle positive
  -- That the condition ends here is that its branch does not begin with a minus sign.
  rw [same, written.ends_condition shaped] at ends
  rcases after with _ | ⟨⟨kind, place⟩, after⟩
  · obtain ⟨rfl, rfl⟩ := Reading.succeeds_accept.1 success
    refine ⟨rfl, ?_, nofun, _, .conditional writtenCondition written, by simp [whole, same]⟩
    exact ⟨shapedCondition, shaped, statement, ends⟩
  · have shorterAfter : after.length + 1 ≤ middle.length - 1 := positive.length_le
    simp only at success
    split at success
    next word =>
      cases word
      obtain ⟨elseBranch, negative, rfl⟩ := Reading.succeeds_map.1 success
      obtain ⟨statementElse, shapedElse, stopsElse, other, writtenElse, rfl⟩ :=
        reads_of_statement after negative
      refine ⟨rfl, ?_, stopsElse, _, .alternative place writtenCondition written writtenElse,
        by simp [whole, same]⟩
      exact ⟨shapedCondition, ⟨shaped, statement, ends⟩, fun opened => stops opened rfl,
        shapedElse, statementElse⟩
    next word =>
      obtain ⟨rfl, rfl⟩ := Reading.succeeds_accept.1 success
      refine ⟨rfl, ?_, Node.stops_cons word, _, .conditional writtenCondition written,
        by simp [whole, same]⟩
      exact ⟨shapedCondition, shaped, statement, ends⟩
termination_by tokens.length * 10 + 1

/-- What a `while` loop is read from, with its keyword. -/
theorem reads_of_whileLoop {span : Span} {node : Node} {rest : List Token} (tokens : List Token)
    (success : (whileLoop ending span tokens).Succeeds node rest) :
    node.isStatement ∧ node.Reads (⟨.keyword .whileWord, span⟩ :: tokens) rest := by
  rw [whileLoop] at success
  obtain ⟨condition, middle, _, test, success⟩ := Reading.succeeds_andThen.1 success
  have shorter : middle.length ≤ tokens.length - 1 := test.length_le
  obtain ⟨shapedCondition, ends, asked, writtenCondition, whole⟩ := succeeds_condition.1 test
  obtain ⟨body, again, rfl⟩ := Reading.succeeds_map.1 success
  obtain ⟨statement, shaped, stops, repeated, written, same⟩ := reads_of_statement middle again
  rw [same, written.ends_condition shaped] at ends
  refine ⟨rfl, ?_, stops, _, .whileLoop writtenCondition written, by simp [whole, same]⟩
  exact ⟨shapedCondition, shaped, statement, ends⟩
termination_by tokens.length * 10 + 1

/-- What a `for` loop is read from, with its keyword. -/
theorem reads_of_forLoop {span : Span} {node : Node} {rest : List Token} (tokens : List Token)
    (success : (forLoop ending span tokens).Succeeds node rest) :
    node.isStatement ∧ node.Reads (⟨.keyword .forWord, span⟩ :: tokens) rest := by
  rw [forLoop] at success
  obtain ⟨_, clauses, _, opened, success⟩ := Reading.succeeds_andThen.1 success
  have shorter : clauses.length ≤ tokens.length := opened.length_le
  obtain ⟨opening, rfl, whole⟩ := succeeds_expect.1 opened
  obtain ⟨first, conditions, _, initial, success⟩ := Reading.succeeds_andThen.1 success
  have shorterConditions : conditions.length ≤ clauses.length := initial.length_le
  obtain ⟨shapedFirst, start, writtenFirst, sameClauses⟩ := succeeds_forInitializer.1 initial
  obtain ⟨condition, _, _, test, success⟩ := Reading.succeeds_andThen.1 success
  obtain ⟨_, increments, _, separated, success⟩ := Reading.succeeds_andThen.1 success
  obtain ⟨semicolon, rfl, rfl⟩ := succeeds_expect.1 separated
  have shorterIncrements : increments.length + 1 ≤ conditions.length := test.length_le
  obtain ⟨shapedCondition, asked, writtenCondition, sameConditions⟩ :=
    (succeeds_optionalExpression closes_semicolon).1 test
  obtain ⟨increment, _, _, advance, success⟩ := Reading.succeeds_andThen.1 success
  obtain ⟨_, repeated, _, closed, success⟩ := Reading.succeeds_andThen.1 success
  obtain ⟨closing, rfl, rfl⟩ := succeeds_expect.1 closed
  have shorterRepeated : repeated.length + 1 ≤ increments.length := advance.length_le
  obtain ⟨shapedIncrement, step, writtenIncrement, sameIncrements⟩ :=
    (succeeds_optionalExpression closes_rightParen).1 advance
  obtain ⟨body, again, rfl⟩ := Reading.succeeds_map.1 success
  obtain ⟨statement, shaped, stops, inside, written, same⟩ := reads_of_statement repeated again
  refine ⟨rfl, ?_, stops, _, .forLoop opening semicolon closing writtenFirst writtenCondition
    writtenIncrement written, by simp [whole, sameClauses, sameConditions, sameIncrements, same]⟩
  cases first with
  | none => exact ⟨shapedCondition, shapedIncrement, shaped, statement⟩
  | some clause =>
      exact ⟨shapedFirst clause rfl, shapedCondition, shapedIncrement, shaped, statement⟩
termination_by tokens.length * 10 + 1

/-- What a function is read from, behind its keyword, and a method. -/
theorem reads_of_function {span : Span} {declared : Function} {rest : List Token}
    (tokens : List Token)
    (success : (function ending span tokens).Succeeds declared rest) :
    declared.span = span ∧ declared.Reads tokens rest := by
  rw [function] at success
  obtain ⟨name, behind, _, named, success⟩ := Reading.succeeds_andThen.1 success
  have shorter : behind.length ≤ tokens.length - 1 := named.length_le
  have whole := succeeds_identifier.1 named
  obtain ⟨names, _, _, listed, success⟩ := Reading.succeeds_andThen.1 success
  obtain ⟨_, inside, _, opened, success⟩ := Reading.succeeds_andThen.1 success
  obtain ⟨start, rfl, rfl⟩ := succeeds_expect.1 opened
  have shorterInside : inside.length + 1 ≤ behind.length := listed.length_le
  obtain ⟨opening, consumed, closing, writtenNames, same⟩ := succeeds_parameters.1 listed
  obtain ⟨body, held, rfl⟩ := Reading.succeeds_map.1 success
  obtain ⟨nonempty, shaped, written, finish, writtenBody, sameBody⟩ :=
    reads_of_blockBody inside held
  refine ⟨rfl, ⟨nonempty, shaped⟩, _,
    .mk opening closing start finish writtenNames writtenBody, ?_⟩
  simp [whole, same, sameBody]
termination_by tokens.length * 10 + 4

/-- What methods are read from. -/
theorem reads_of_methods {functions : List Function} {rest : List Token} : (tokens : List Token) →
    (methods ending tokens).Succeeds functions rest →
    Function.MethodsReads functions tokens rest
  | [], success => by
      rw [methods] at success
      cases Reading.not_succeeds_reject success
  | ⟨kind, place⟩ :: tokens, success => by
      rw [methods] at success
      split at success
      next same =>
        cases same
        obtain ⟨rfl, rfl⟩ := Reading.succeeds_accept.1 success
        exact ⟨trivial, [], place, .nil, rfl⟩
      next =>
        obtain ⟨method, middle, _, first, success⟩ := Reading.succeeds_andThen.1 success
        have shorter : middle.length ≤ tokens.length + 1 - 1 := first.length_le
        obtain ⟨others, behind, rfl⟩ := Reading.succeeds_map.1 success
        obtain ⟨spanned, shaped, consumed, written, whole⟩ :=
          reads_of_function (⟨kind, place⟩ :: tokens) first
        obtain ⟨shapedOthers, inside, finish, writtenOthers, same⟩ :=
          reads_of_methods middle behind
        have named : method.span = method.name.span := by
          cases written
          cases whole
          exact spanned
        refine ⟨⟨shaped, named, shapedOthers⟩, _, finish, .cons written named writtenOthers, ?_⟩
        rw [whole, same, List.append_assoc]
termination_by tokens => tokens.length * 10 + 5

/-- What a class is read from, with its keyword. -/
theorem reads_of_classDeclaration {span : Span} {node : Node} {rest : List Token}
    (tokens : List Token)
    (success : (classDeclaration ending span tokens).Succeeds node rest) :
    node.Reads (⟨.keyword .classWord, span⟩ :: tokens) rest := by
  rw [classDeclaration] at success
  obtain ⟨name, behind, _, named, success⟩ := Reading.succeeds_andThen.1 success
  have shorter : behind.length ≤ tokens.length - 1 := named.length_le
  have whole := succeeds_identifier.1 named
  obtain ⟨parent, _, _, above, success⟩ := Reading.succeeds_andThen.1 success
  obtain ⟨_, inside, _, opened, success⟩ := Reading.succeeds_andThen.1 success
  obtain ⟨start, rfl, rfl⟩ := succeeds_expect.1 opened
  have shorterInside : inside.length + 1 ≤ behind.length := above.length_le
  obtain ⟨consumed, writtenParent, same⟩ := succeeds_superclass.1 above
  obtain ⟨functions, held, rfl⟩ := Reading.succeeds_map.1 success
  obtain ⟨shaped, written, finish, writtenMethods, sameMethods⟩ := reads_of_methods inside held
  refine ⟨shaped, nofun, _, .classDeclaration start finish writtenParent writtenMethods, ?_⟩
  simp [whole, same, sameMethods]
termination_by tokens.length * 10 + 6

end

end Grammar

end TreeWalk
