import TreeWalk.Proofs.Grammar.Program
import TreeWalk.Proofs.Syntax.Parts

/-!
# Trees that tokens make up

Whatever the tokens, nothing in the trees read from them stands where a text would have it
belong elsewhere: no operand, no `else` and no assignment. Errors beside a tree change nothing
about that.
-/

namespace TreeWalk

/-- Whether the expression is an assignment. -/
def Expr.isAssignment : Expr → Bool
  | .assign _ _ _ => true
  | _ => false

/-- The operands of an operator are of its tiers, with those of one tier grouped to the left, and
no assignments. What is assigned is an identifier of the tokens. -/
def Expr.Unambiguous (tokens : List Token) : Expr → Prop
  | .terminal _ => True
  | .group _ _ => True
  | .unary _ operand _ =>
      operand.tier.looseness ≤ Tier.unary.looseness ∧ ¬ operand.isAssignment
  | .binary left operator right _ =>
      (InfixOperator.binary operator).Takes left right ∧
        ¬ left.isAssignment ∧ ¬ right.isAssignment
  | .logical left operator right _ =>
      (InfixOperator.logical operator).Takes left right ∧
        ¬ left.isAssignment ∧ ¬ right.isAssignment
  | .assign target _ _ => target.token ∈ tokens

/-- Bodies have something in them, branches and bodies of loops are statements, a `for` begins
with a variable declaration or an expression statement, and in front of an `else` no conditional
ends that could take it. -/
def Node.Unambiguous : Node → Prop
  | .block body _ => body ≠ []
  | .conditional _ thenBranch elseBranch _ =>
      thenBranch.isStatement ∧
        ∀ other ∈ elseBranch, other.isStatement ∧ ¬ thenBranch.endsOpen
  | .whileLoop _ body _ => body.isStatement
  | .forLoop initializer _ _ body _ =>
      (∀ first ∈ initializer, first.isInitializer) ∧ body.isStatement
  | .classDeclaration _ _ methods _ => ∀ method ∈ methods, method.body ≠ []
  | .functionDeclaration function => function.body ≠ []
  | _ => True

namespace Expr

variable {value : Expr} {tokens : List Token}

/-- An assignment binds more loosely than any operator takes. -/
theorem not_isAssignment_of_looseness (tight : value.tier.looseness < Tier.assignment.looseness) :
    ¬ value.isAssignment := by
  cases value with
  | assign => exact absurd tight (Nat.lt_irrefl _)
  | _ => exact Bool.false_ne_true

/-- No operator takes an assignment on either side. -/
theorem not_isAssignment_of_takes {operator : InfixOperator} {left right : Expr}
    (takes : operator.Takes left right) : ¬ left.isAssignment ∧ ¬ right.isAssignment := by
  have tight : operator.tier.looseness < Tier.assignment.looseness := by
    have bound := operator.level.looseness_le
    simp only [InfixOperator.tier, Tier.looseness]
    omega
  exact ⟨not_isAssignment_of_looseness (Nat.lt_of_le_of_lt takes.left tight),
    not_isAssignment_of_looseness (Nat.lt_trans takes.right tight)⟩

/-- A well-shaped expression of the tokens is unambiguous. -/
theorem WellShaped.unambiguous (shaped : value.WellShaped) (among : Among Written tokens value) :
    value.Unambiguous tokens := by
  cases value with
  | terminal | group => trivial
  | unary =>
      obtain ⟨_, tight⟩ := shaped
      exact ⟨tight, not_isAssignment_of_looseness (Nat.lt_of_le_of_lt tight (by decide))⟩
  | binary | logical =>
      obtain ⟨_, _, takes⟩ := shaped
      exact ⟨takes, not_isAssignment_of_takes takes⟩
  | assign =>
      obtain ⟨_, written, within⟩ := among
      cases written
      exact within List.mem_cons_self

/-- All that stands in a well-shaped expression is unambiguous. -/
theorem WellShaped.unambiguous_within {part : Expr} (shaped : value.WellShaped)
    (among : Among Written tokens value) (inside : Within operands part value) :
    part.Unambiguous tokens :=
  (shaped.within inside).unambiguous (among_within among inside)

end Expr

namespace Node

variable {node part : Node} {tokens : List Token}

/-- A well-shaped node is unambiguous. -/
theorem WellShaped.unambiguous (shaped : node.WellShaped) : node.Unambiguous := by
  cases node with
  | block => exact shaped.1
  | conditional condition thenBranch elseBranch =>
      cases elseBranch with
      | none => exact ⟨shaped.2.2.1, by simp⟩
      | some other =>
          obtain ⟨_, ⟨_, statement, _⟩, closed, _, otherStatement⟩ := shaped
          exact ⟨statement, by simp [otherStatement, closed]⟩
  | whileLoop => exact shaped.2.2.1
  | forLoop initializer =>
      cases initializer with
      | none => exact ⟨by simp, shaped.2.2.2⟩
      | some first => exact ⟨by simpa using shaped.1.2, shaped.2.2.2.2⟩
  | classDeclaration =>
      intro method present
      cases method
      exact (Function.MethodsWellShaped.method shaped present).1
  | functionDeclaration function =>
      cases function
      exact shaped.1
  | expression | expressionStatement | print | variableDeclaration | returned => trivial

/-- A well-shaped node is no bare expression. -/
theorem WellShaped.ne_expression (shaped : node.WellShaped) (value : Expr) :
    node ≠ .expression value := by
  rintro rfl
  exact shaped

/-- A bare expression has no nodes in it. -/
theorem eq_of_within_expression {value : Expr}
    (inside : Within children part (.expression value)) : part = .expression value := by
  cases inside with
  | here => rfl
  | deeper direct _ => cases direct

end Node

namespace Grammar

variable {mode : Mode} {ending : Span} {tokens : List Token} {node : Node} {nodes : List Node}
  {errors : List SyntaxError}

/-- What a node of a program is: in expression mode a bare expression, else a declaration or a
statement, and in any case well-shaped. -/
def WellShapedIn (mode : Mode) (node : Node) : Prop :=
  match mode with
  | .expression => ∃ value, node = .expression value ∧ value.WellShaped
  | .statement => node.WellShaped

/-- What is read at the top level is a node as the mode has it. -/
theorem wellShapedIn_of_topLevel {rest : List Token}
    (read : (topLevel mode ending tokens).Succeeds node rest) : WellShapedIn mode node := by
  cases mode with
  | expression =>
      rw [topLevel] at read
      obtain ⟨value, stated, rfl⟩ := Reading.succeeds_map.1 read
      exact ⟨value, rfl, (succeeds_condition.1 stated).1⟩
  | statement => exact (succeeds_declaration.1 read).shaped

/-- The nodes of a program are well-shaped and written among its tokens. -/
theorem Stretches.wellShapedIn (stretches : Stretches mode ending tokens nodes errors)
    (present : node ∈ nodes) : WellShapedIn mode node ∧ Among Node.Written tokens node := by
  induction stretches with
  | nil => cases present
  | node read written _ inductionHypothesis =>
      cases present with
      | head => exact ⟨wellShapedIn_of_topLevel read, _, written, by simp⟩
      | tail _ later =>
          obtain ⟨shaped, among⟩ := inductionHypothesis later
          exact ⟨shaped, among.subset (by simp)⟩
  | error _ _ _ _ inductionHypothesis =>
      obtain ⟨shaped, among⟩ := inductionHypothesis present
      exact ⟨shaped, among.subset (by simp)⟩

/-- All that stands in a node of a program is unambiguous, and nothing in it but the node itself
is a bare expression. -/
theorem WellShapedIn.within {part : Node} (shaped : WellShapedIn mode node)
    (among : Among Node.Written tokens node) (inside : Within Node.children part node) :
    part.Unambiguous ∧ (∀ clause ∈ part.clauses, clause.WellShaped ∧ Among Expr.Written tokens clause) ∧
      ∀ value, part = .expression value → mode = .expression ∧ part = node := by
  cases mode with
  | expression =>
      obtain ⟨value, rfl, shapedValue⟩ := shaped
      obtain rfl := Node.eq_of_within_expression inside
      refine ⟨trivial, fun clause direct => ?_, fun _ _ => ⟨rfl, rfl⟩⟩
      refine ⟨?_, Node.among_clause among direct⟩
      obtain rfl := List.mem_singleton.1 direct
      exact shapedValue
  | statement =>
      have shapedPart := Node.WellShaped.within shaped inside
      have amongPart := Node.among_within among inside
      refine ⟨shapedPart.unambiguous, fun clause direct => ?_, fun value same => ?_⟩
      · exact ⟨shapedPart.clause direct, Node.among_clause amongPart direct⟩
      · exact absurd same (shapedPart.ne_expression value)

/-- Trees are unambiguous. Whatever the tokens, the mode and the errors, each node that is read
is unambiguous at every depth, and so is each expression in it; a bare expression is a whole node,
and one of expression mode. -/
theorem trees_are_unambiguous (mode : Mode) (tokens : List Token) :
    ∀ node ∈ (program mode tokens).produced, ∀ part, Within Node.children part node →
      part.Unambiguous ∧
        (∀ clause ∈ part.clauses, ∀ value, Within Expr.operands value clause →
          value.Unambiguous tokens) ∧
        ∀ value, part = .expression value → mode = .expression ∧ part = node := by
  intro node read part inside
  obtain ⟨shaped, among⟩ := (stretches_nodes mode (endingOf tokens) tokens).wellShapedIn read
  obtain ⟨unambiguous, clauses, bare⟩ := shaped.within among inside
  refine ⟨unambiguous, fun clause direct value inside => ?_, bare⟩
  obtain ⟨shapedClause, amongClause⟩ := clauses clause direct
  exact shapedClause.unambiguous_within amongClause inside

/-- Behind the error of a stray parenthesis stands a conditional whose first branch is a loop. -/
theorem trees_are_unambiguous_beside_error :
    let tokens := (scan ") if (a) while (b) { c = -1 + 2; } else print d;").produced
    (program .statement tokens).errors.length = 1 ∧
      ∃ node, (program .statement tokens).produced = [node] ∧ node.Unambiguous ∧
        ∀ body ∈ node.children, body.Unambiguous ∧
          ∀ clause ∈ body.clauses, clause.Unambiguous tokens := by
  intro tokens
  refine ⟨by decide +kernel, ?_⟩
  obtain ⟨node, single⟩ : ∃ node, (program .statement tokens).produced = [node] :=
    List.length_eq_one_iff.1 (by decide +kernel)
  have unambiguous := trees_are_unambiguous .statement tokens node (by simp [single])
  refine ⟨node, single, (unambiguous node .here).1, fun body direct => ?_⟩
  obtain ⟨here, clauses, _⟩ := unambiguous body (.deeper direct .here)
  exact ⟨here, fun clause stands => clauses clause stands clause .here⟩

end Grammar

end TreeWalk
