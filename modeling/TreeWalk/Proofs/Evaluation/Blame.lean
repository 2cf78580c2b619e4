import TreeWalk.Proofs.Evaluation.Failure
import TreeWalk.Proofs.Grammar.Ambiguity

/-!
# What errors are about

A tree that was read from tokens fails on account of one of them: the name of a variable, an
operator, the `if` of a condition, or the keyword of a construct that evaluation does not
cover. The error has the span of that token.
-/

namespace TreeWalk

/-- The kind of the operator's token, or of the keyword that takes the condition. -/
def Operation.kind : Operation → Kind
  | unary operator => .punctuator operator.mark
  | binary operator => .punctuator operator.mark
  | condition => .keyword .ifWord

/-- The token of an operation is spelled as errors name the operation. -/
theorem Operation.lexeme_kind (operation : Operation) : operation.kind.lexeme = operation.text := by
  rcases operation with operator | operator | _
  · cases operator <;> rfl
  · rfl
  · rfl

/-- The keyword that the construct begins with. -/
def Construct.keyword? : Construct → Option Keyword
  | whileStatement => some .whileWord
  | forStatement => some .forWord
  | returnStatement => some .returnWord
  | classDeclaration => some .classWord
  | functionDeclaration => some .funWord
  | terminal _ => none

/-- The error is about one of the tokens, and has its span. -/
inductive RuntimeError.Blames (tokens : List Token) : RuntimeError → Prop where
  | name {name : String} {span : Span} (present : ⟨.identifier name, span⟩ ∈ tokens) :
      Blames tokens (.undefinedVariable name span)
  | operation {operation : Operation} {expected : Operands} {span : Span}
      (present : ⟨operation.kind, span⟩ ∈ tokens) :
      Blames tokens (.typeMismatch operation expected span)
  | construct {construct : Construct} {word : Keyword} {span : Span}
      (begins : construct.keyword? = some word) (present : ⟨.keyword word, span⟩ ∈ tokens) :
      Blames tokens (.notImplemented construct span)

open RuntimeError (Blames)

variable {tokens : List Token} {error : RuntimeError}

/-- What an expression raises is about one of its own tokens. -/
theorem Expr.Raises.blames {value : Expr} (raised : value.Raises error)
    (shaped : value.WellShaped) (among : Among Written tokens value) : error.Blames tokens := by
  obtain ⟨own, written, subset⟩ := among
  cases raised with
  | name =>
      cases written
      exact .name (subset List.mem_cons_self)
  | terminal other => exact absurd shaped other
  | unary =>
      cases written
      exact .operation (subset List.mem_cons_self)
  | binary =>
      cases written
      exact .operation (subset (List.mem_append_right _ List.mem_cons_self))
  | assign =>
      cases written
      exact .name (subset List.mem_cons_self)

/-- What is raised in an expression is about one of its tokens. -/
theorem Expr.WellShaped.raisesOnly_blames {value : Expr} (shaped : value.WellShaped)
    (among : Among Written tokens value) : value.RaisesOnly (Blames tokens) := by
  intro part inside error raised
  exact raised.blames (shaped.within inside) (Expr.among_within among inside)

/-- A node that evaluation does not cover begins with the keyword of its construct. -/
theorem Node.keyword_of_uncovered {node : Node} {construct : Construct}
    (uncovered : node.uncovered? = some construct) (among : Among Written tokens node) :
    ∃ word, construct.keyword? = some word ∧ ⟨.keyword word, node.span⟩ ∈ tokens := by
  obtain ⟨own, written, subset⟩ := among
  cases written <;> cases uncovered <;> exact ⟨_, rfl, subset (by simp [span])⟩

/-- What is raised in a node of a program is about one of its tokens. -/
theorem Grammar.WellShapedIn.raisesOnly_blames {mode : Mode} {node : Node}
    (shaped : WellShapedIn mode node) (among : Among Node.Written tokens node) :
    node.RaisesOnly (Blames tokens) := by
  intro part inside error raised
  have amongPart := Node.among_within among inside
  cases raised with
  | clause direct under raised =>
      obtain ⟨_, clauses, _⟩ := shaped.within among inside
      obtain ⟨shapedClause, amongClause⟩ := clauses _ direct
      exact shapedClause.raisesOnly_blames amongClause _ under _ raised
  | condition asks =>
      subst asks
      obtain ⟨own, written, subset⟩ := amongPart
      cases written <;> exact .operation (subset List.mem_cons_self)
  | uncovered uncovered =>
      obtain ⟨word, begins, present⟩ := Node.keyword_of_uncovered uncovered amongPart
      exact .construct begins present

/-- The nodes of a program fail on account of its tokens. -/
theorem Grammar.Stretches.failsOnly_eval {mode : Mode} {ending : Span} {tokens all : List Token}
    {nodes : List Node} {errors : List SyntaxError}
    (stretches : Stretches mode ending tokens nodes errors) (within : tokens ⊆ all) :
    ∀ node ∈ nodes, node.eval.FailsOnly (Blames all) := by
  intro node read
  obtain ⟨shaped, among⟩ := stretches.wellShapedIn read
  exact node.failsOnly_eval (shaped.raisesOnly_blames (among.subset within))

end TreeWalk
