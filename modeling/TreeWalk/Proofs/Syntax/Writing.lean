import TreeWalk.Proofs.Syntax.Shape
import TreeWalk.Proofs.Syntax.Written

/-!
# Every tree can be written

Each well-shaped tree has a written form. The tokens whose spans no tree keeps are put at
the span of the tree here, though they may stand anywhere.
-/

namespace TreeWalk

/-- Every expression can be written. -/
theorem Expr.exists_written (value : Expr) : ∃ tokens, value.Written tokens := by
  induction value with
  | terminal token => exact ⟨_, .terminal⟩
  | group inner span inside =>
      obtain ⟨tokens, written⟩ := inside
      exact ⟨_, .group span written⟩
  | unary operator operand span behind =>
      obtain ⟨tokens, written⟩ := behind
      exact ⟨_, .unary written⟩
  | binary left operator right span before behind =>
      obtain ⟨leftTokens, writtenLeft⟩ := before
      obtain ⟨rightTokens, writtenRight⟩ := behind
      exact ⟨_, .binary writtenLeft writtenRight⟩
  | logical left operator right span before behind =>
      obtain ⟨leftTokens, writtenLeft⟩ := before
      obtain ⟨rightTokens, writtenRight⟩ := behind
      exact ⟨_, .logical writtenLeft writtenRight⟩
  | assign target value span behind =>
      obtain ⟨tokens, written⟩ := behind
      exact ⟨_, .assign written⟩

/-- An expression that may be left out has a written form. -/
theorem Expr.exists_optionWritten (value : Option Expr) :
    ∃ tokens, Expr.OptionWritten value tokens := by
  cases value with
  | none => exact ⟨_, .none⟩
  | some value =>
      obtain ⟨tokens, written⟩ := value.exists_written
      exact ⟨_, .some written⟩

/-- An initial value that may be left out has a written form. -/
theorem Expr.exists_initializerWritten (value : Option Expr) :
    ∃ tokens, Expr.InitializerWritten value tokens := by
  cases value with
  | none => exact ⟨_, .none⟩
  | some value =>
      obtain ⟨tokens, written⟩ := value.exists_written
      exact ⟨_, .some {} written⟩

/-- A list of names has a written form. -/
theorem Identifier.exists_listWritten (names : List Identifier) :
    ∃ tokens, Identifier.ListWritten names tokens := by
  induction names with
  | nil => exact ⟨_, .nil⟩
  | cons name others inductionHypothesis =>
      cases others with
      | nil => exact ⟨_, .single⟩
      | cons next others =>
          obtain ⟨tokens, written⟩ := inductionHypothesis
          exact ⟨_, .cons {} written⟩

/-- A superclass that may be left out has a written form. -/
theorem Identifier.exists_superclassWritten (parent : Option Identifier) :
    ∃ tokens, Identifier.SuperclassWritten parent tokens := by
  cases parent with
  | none => exact ⟨_, .none⟩
  | some name => exact ⟨_, .some {}⟩

mutual

/-- Every well-shaped function can be written. -/
theorem Function.exists_written : (function : Function) → function.WellShaped →
    ∃ tokens, function.Written tokens
  | .mk _ parameters body span, shaped => by
      obtain ⟨names, listed⟩ := Identifier.exists_listWritten parameters
      obtain ⟨inside, held⟩ := Node.exists_allWritten body shaped.2
      exact ⟨_, .mk span span span span listed held⟩

/-- Well-shaped methods have a written form. -/
theorem Function.exists_methodsWritten : (methods : List Function) →
    Function.MethodsWellShaped methods → ∃ tokens, Function.MethodsWritten methods tokens
  | [], _ => ⟨_, .nil⟩
  | method :: others, shaped => by
      obtain ⟨tokens, first⟩ := method.exists_written shaped.1
      obtain ⟨rest, behind⟩ := Function.exists_methodsWritten others shaped.2.2
      exact ⟨_, .cons first shaped.2.1 behind⟩

/-- Every well-shaped node can be written. -/
theorem Node.exists_written : (node : Node) → node.WellShaped → ∃ tokens, node.Written tokens
  | .expressionStatement value span, shaped => by
      obtain ⟨tokens, written⟩ := value.exists_written
      obtain rfl : span = value.span := shaped.2
      exact ⟨_, .expressionStatement value.span written⟩
  | .print value span, _ => by
      obtain ⟨tokens, written⟩ := value.exists_written
      exact ⟨_, .print span written⟩
  | .variableDeclaration name initializer span, _ => by
      obtain ⟨tokens, written⟩ := Expr.exists_initializerWritten initializer
      exact ⟨_, .variableDeclaration span written⟩
  | .block body span, shaped => by
      obtain ⟨tokens, held⟩ := Node.exists_allWritten body shaped.2
      exact ⟨_, .block span held⟩
  | .conditional condition thenBranch none span, shaped => by
      obtain ⟨asked, test⟩ := condition.exists_written
      obtain ⟨chosen, positive⟩ := thenBranch.exists_written shaped.2.1
      exact ⟨_, .conditional test positive⟩
  | .conditional condition thenBranch (some elseBranch) span, shaped => by
      obtain ⟨asked, test⟩ := condition.exists_written
      obtain ⟨chosen, positive⟩ := thenBranch.exists_written shaped.2.1.1
      obtain ⟨other, negative⟩ := elseBranch.exists_written shaped.2.2.2.1
      exact ⟨_, .alternative span test positive negative⟩
  | .whileLoop condition body span, shaped => by
      obtain ⟨asked, test⟩ := condition.exists_written
      obtain ⟨repeated, again⟩ := body.exists_written shaped.2.1
      exact ⟨_, .whileLoop test again⟩
  -- Any spans will do for tokens that a node keeps no span of.
  | .forLoop none condition increment body span, shaped => by
      obtain ⟨asked, test⟩ := Expr.exists_optionWritten condition
      obtain ⟨step, advance⟩ := Expr.exists_optionWritten increment
      obtain ⟨repeated, again⟩ := body.exists_written shaped.2.2.1
      exact ⟨_, .forLoop span span span (.none span) test advance again⟩
  | .forLoop (some initializer) condition increment body span, shaped => by
      obtain ⟨first, initial⟩ := initializer.exists_written shaped.1.1
      obtain ⟨asked, test⟩ := Expr.exists_optionWritten condition
      obtain ⟨step, advance⟩ := Expr.exists_optionWritten increment
      obtain ⟨repeated, again⟩ := body.exists_written shaped.2.2.2.1
      exact ⟨_, .forLoop span span span (.some initial) test advance again⟩
  | .returned result span, _ => by
      obtain ⟨tokens, written⟩ := Expr.exists_optionWritten result
      exact ⟨_, .returned span written⟩
  | .classDeclaration name superclass methods span, shaped => by
      obtain ⟨parent, above⟩ := Identifier.exists_superclassWritten superclass
      obtain ⟨tokens, held⟩ := Function.exists_methodsWritten methods shaped
      exact ⟨_, .classDeclaration span span above held⟩
  | .functionDeclaration function, shaped => by
      obtain ⟨tokens, declared⟩ := function.exists_written shaped
      exact ⟨_, .functionDeclaration declared⟩

/-- Well-shaped nodes have a written form. -/
theorem Node.exists_allWritten : (nodes : List Node) → Node.AllWellShaped nodes →
    ∃ tokens, Node.AllWritten nodes tokens
  | [], _ => ⟨_, .nil⟩
  | node :: nodes, shaped => by
      obtain ⟨tokens, first⟩ := node.exists_written shaped.1
      obtain ⟨rest, behind⟩ := Node.exists_allWritten nodes shaped.2
      exact ⟨_, .cons first behind⟩

end

end TreeWalk
