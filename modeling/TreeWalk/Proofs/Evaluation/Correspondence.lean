import TreeWalk.Evaluation
import TreeWalk.Proofs.Syntax.Names

/-!
# Runs in correspondence

Two runs of one tree, the second over other scopes and perhaps with other names. If a relation
between the scopes is kept by every look-up, declaration and assignment of the names in the
tree, and by opening and closing a scope, then it holds throughout. The runs have the same
value and print the same lines, and an error of one is the other's up to the name in it.
-/

namespace TreeWalk

/-- A relation between scopes that evaluation keeps, as long as it meets known names only. The
second scopes have the names that the naming gives. The depth counts the scopes that were
opened since the relation was set up. -/
structure Scopes.Correspondence (naming : String → String) (known : String → Prop) where
  Holds : Nat → Scopes → Scopes → Prop
  get?_eq {depth : Nat} {first second : Scopes} {name : String} :
    Holds depth first second → known name → second.get? (naming name) = first.get? name
  define {depth : Nat} {first second : Scopes} {name : String} (value : Value) :
    Holds depth first second → known name →
      Holds depth (first.define name value) (second.define (naming name) value)
  assign? {depth : Nat} {first second : Scopes} {name : String} (value : Value) :
    Holds depth first second → known name →
      Option.Rel (Holds depth) (first.assign? name value) (second.assign? (naming name) value)
  push {depth : Nat} {first second : Scopes} :
    Holds depth first second → Holds (depth + 1) first.push second.push
  pop {depth : Nat} {first second : Scopes} :
    Holds (depth + 1) first second → Holds depth first.pop second.pop

/-- The effects have the same value or, up to the name in it, the same error. They print the
same lines and leave related scopes. -/
structure Effect.Corresponds {α : Type} (naming : String → String)
    (related : Scopes → Scopes → Prop) (first second : Effect α) : Prop where
  result : second.result = first.result.mapError (RuntimeError.rename naming)
  printed : second.printed = first.printed
  scopes : related first.scopes second.scopes

variable {naming : String → String} {known : String → Prop}
  (correspondence : Scopes.Correspondence naming known)

/-- From scopes in correspondence the actions have corresponding effects. -/
def Action.Corresponds {α : Type} (first second : Action α) : Prop :=
  ∀ (depth : Nat) (scopes others : Scopes), correspondence.Holds depth scopes others →
    (first scopes).Corresponds naming (correspondence.Holds depth) (second others)

namespace Action

variable {correspondence} {α β : Type}

/-- Returning a value corresponds to returning it. -/
theorem corresponds_pure (value : α) :
    Corresponds correspondence (pure value) (pure value : Action α) :=
  fun _ _ _ holds => ⟨rfl, rfl, holds⟩

/-- A result corresponds to the same one with the name in its error renamed. -/
theorem corresponds_ofExcept {first second : Except RuntimeError α}
    (same : second = first.mapError (RuntimeError.rename naming)) :
    Corresponds correspondence (ofExcept first) (ofExcept second) :=
  fun _ _ _ holds => ⟨same, rfl, holds⟩

/-- Printing a line corresponds to printing it. -/
theorem corresponds_print (line : String) :
    Corresponds correspondence (print line) (print line) :=
  fun _ _ _ holds => ⟨rfl, rfl, holds⟩

/-- A declaration of a known name corresponds to that of its other name. -/
theorem corresponds_define {name : String} (value : Value) (present : known name) :
    Corresponds correspondence (define name value) (define (naming name) value) :=
  fun _ _ _ holds => ⟨rfl, rfl, correspondence.define value holds present⟩

/-- A look-up of a known name corresponds to that of its other name, found or not. -/
theorem corresponds_lookup {name : String} (span : Span) (present : known name) :
    Corresponds correspondence (lookup name span) (lookup (naming name) span) := by
  intro depth scopes others holds
  unfold lookup
  rw [correspondence.get?_eq holds present]
  cases scopes.get? name with
  | none => exact ⟨rfl, rfl, holds⟩
  | some value => exact ⟨rfl, rfl, holds⟩

/-- An assignment to a known name corresponds to that to its other name, found or not. -/
theorem corresponds_assign {name : Identifier} (value : Value) (present : known name.name) :
    Corresponds correspondence (assign name value) (assign (name.rename naming) value) := by
  intro depth scopes others holds
  have assigned := correspondence.assign? value holds present
  unfold assign
  rw [Identifier.rename]
  generalize scopes.assign? name.name value = here at assigned ⊢
  generalize others.assign? (naming name.name) value = there at assigned ⊢
  cases assigned with
  | none => exact ⟨rfl, rfl, holds⟩
  | some kept => exact ⟨rfl, rfl, kept⟩

/-- Sequences correspond if their parts do. -/
theorem Corresponds.bind {first second : Action α} {next following : α → Action β}
    (front : Corresponds correspondence first second)
    (behind : ∀ value, Corresponds correspondence (next value) (following value)) :
    Corresponds correspondence (first >>= next) (second >>= following) := by
  intro depth scopes others holds
  have parts := front depth scopes others holds
  cases outcome : (first scopes).result with
  | ok value =>
      have other : (second others).result = .ok value := by rw [parts.result, outcome]; rfl
      have rest := behind value depth _ _ parts.scopes
      rw [bind_of_ok outcome, bind_of_ok other]
      exact ⟨rest.result, by rw [parts.printed, rest.printed], rest.scopes⟩
  | error error =>
      have other : (second others).result = .error (error.rename naming) := by
        rw [parts.result, outcome]
        rfl
      rw [bind_of_error outcome, bind_of_error other]
      exact ⟨rfl, parts.printed, parts.scopes⟩

/-- In scopes of their own actions correspond as they do outside, one scope deeper. -/
theorem Corresponds.enclosed {first second : Action α}
    (inside : Corresponds correspondence first second) :
    Corresponds correspondence first.enclosed second.enclosed := by
  intro depth scopes others holds
  have effects := inside (depth + 1) scopes.push others.push (correspondence.push holds)
  exact ⟨effects.result, effects.printed, correspondence.pop effects.scopes⟩

end Action

section Values

variable (naming)

/-- No operator is refused on account of a name. -/
theorem Value.unary_rename (operator : UnaryOperator) (value : Value) (span : Span) :
    value.unary operator span =
      (value.unary operator span).mapError (RuntimeError.rename naming) := by
  cases operator <;> cases value <;> rfl

/-- Renaming finds no name in the errors of binary operators. -/
theorem Value.binary_rename (operator : BinaryOperator) (left right : Value) (span : Span) :
    Value.binary operator left right span =
      (Value.binary operator left right span).mapError (RuntimeError.rename naming) := by
  cases operator <;> cases left <;> cases right <;> rfl

end Values

variable {correspondence}

open TreeWalk.Action (Corresponds corresponds_pure)

/-- A terminal that has known names alone corresponds to the renamed one. -/
theorem Token.corresponds_eval {token : Token} (within : ∀ name ∈ token.names, known name) :
    Corresponds correspondence token.eval (token.rename naming).eval := by
  obtain ⟨kind, span⟩ := token
  cases kind with
  | identifier name =>
      exact Action.corresponds_lookup span (within name (List.mem_singleton_self name))
  | keyword word =>
      cases word <;> first | exact corresponds_pure _ | exact Action.corresponds_ofExcept rfl
  | number | string => exact corresponds_pure _
  | punctuator | trivia => exact Action.corresponds_ofExcept rfl

/-- An expression and the renamed one correspond. -/
theorem Expr.corresponds_eval {value : Expr} (within : ∀ name ∈ value.names, known name) :
    Corresponds correspondence value.eval (value.rename naming).eval := by
  induction value with
  | terminal token => exact Token.corresponds_eval within
  | group inner _ inside => exact inside within
  | unary operator _ span behind =>
      refine (behind within).bind fun value => Action.corresponds_ofExcept ?_
      exact Value.unary_rename naming operator value span
  | binary _ operator _ span before behind =>
      obtain ⟨inLeft, inRight⟩ := List.forall_mem_append.1 within
      refine (before inLeft).bind fun left => (behind inRight).bind fun right => ?_
      exact Action.corresponds_ofExcept (Value.binary_rename naming operator left right span)
  | logical _ operator _ _ before behind =>
      obtain ⟨inLeft, inRight⟩ := List.forall_mem_append.1 within
      refine (before inLeft).bind fun left => ?_
      split
      · exact corresponds_pure left
      · exact behind inRight
  | assign target _ _ behind =>
      obtain ⟨inTarget, inValue⟩ := List.forall_mem_cons.1 within
      refine (behind inValue).bind fun value => ?_
      exact (Action.corresponds_assign value inTarget).bind fun _ => corresponds_pure value

/-- A condition that has known names alone corresponds to the renamed one. -/
theorem Expr.corresponds_evalCondition {condition : Expr} (span : Span)
    (within : ∀ name ∈ condition.names, known name) :
    Corresponds correspondence (condition.evalCondition span)
      ((condition.rename naming).evalCondition span) := by
  refine (Expr.corresponds_eval within).bind fun value => ?_
  cases value with
  | boolean holds => exact corresponds_pure holds
  | _ => exact Action.corresponds_ofExcept rfl

mutual

/-- A node and the renamed one correspond. -/
theorem Node.corresponds_eval : (node : Node) → (∀ name ∈ node.names, known name) →
    Corresponds correspondence node.eval (node.rename naming).eval
  | .expression value, within => by
      rw [Node.names] at within
      rw [Node.rename, Node.eval, Node.eval]
      exact (Expr.corresponds_eval within).bind fun value => corresponds_pure (some value)
  | .expressionStatement value _, within => by
      rw [Node.names] at within
      rw [Node.rename, Node.eval, Node.eval]
      exact (Expr.corresponds_eval within).bind fun value => corresponds_pure (some value)
  | .print value _, within => by
      rw [Node.names] at within
      rw [Node.rename, Node.eval, Node.eval]
      refine (Expr.corresponds_eval within).bind fun value => ?_
      exact (Action.corresponds_print value.text).bind fun _ => corresponds_pure none
  | .variableDeclaration name none _, within => by
      rw [Node.names] at within
      rw [Node.rename, Option.map_none, Node.eval, Node.eval]
      have declared := (List.forall_mem_cons.1 within).1
      exact (Action.corresponds_define .nil declared).bind fun _ => corresponds_pure none
  | .variableDeclaration name (some initial) _, within => by
      rw [Node.names, Expr.optionNames] at within
      rw [Node.rename, Option.map_some, Node.eval, Node.eval]
      obtain ⟨declared, inInitial⟩ := List.forall_mem_cons.1 within
      rw [Option.toList_some, List.flatMap_singleton] at inInitial
      refine (Expr.corresponds_eval inInitial).bind fun value => ?_
      exact (Action.corresponds_define value declared).bind fun _ => corresponds_pure none
  | .block body _, within => by
      rw [Node.names] at within
      rw [Node.rename, Node.eval, Node.eval]
      exact (Node.corresponds_evalSequence none body within).enclosed
  | .conditional condition thenBranch none span, within => by
      rw [Node.names] at within
      rw [Node.rename, Node.eval, Node.eval]
      obtain ⟨inCondition, inThen⟩ := List.forall_mem_append.1 within
      refine (Expr.corresponds_evalCondition span inCondition).bind fun holds => ?_
      split
      · exact thenBranch.corresponds_eval inThen
      · exact corresponds_pure none
  | .conditional condition thenBranch (some elseBranch) span, within => by
      rw [Node.names] at within
      rw [Node.rename, Node.eval, Node.eval]
      obtain ⟨inCondition, inBranches⟩ := List.forall_mem_append.1 within
      obtain ⟨inThen, inElse⟩ := List.forall_mem_append.1 inBranches
      refine (Expr.corresponds_evalCondition span inCondition).bind fun holds => ?_
      split
      · exact thenBranch.corresponds_eval inThen
      · exact elseBranch.corresponds_eval inElse
  -- What is not covered fails with an error that holds no name.
  | .whileLoop _ _ _, _ => by
      rw [Node.rename, Node.eval, Node.eval]
      exact Action.corresponds_ofExcept rfl
  | .forLoop none _ _ _ _, _ => by
      rw [Node.rename, Node.eval, Node.eval]
      exact Action.corresponds_ofExcept rfl
  | .forLoop (some _) _ _ _ _, _ => by
      rw [Node.rename, Node.eval, Node.eval]
      exact Action.corresponds_ofExcept rfl
  | .returned _ _, _ => by
      rw [Node.rename, Node.eval, Node.eval]
      exact Action.corresponds_ofExcept rfl
  | .classDeclaration _ _ _ _, _ => by
      rw [Node.rename, Node.eval, Node.eval]
      exact Action.corresponds_ofExcept rfl
  | .functionDeclaration (.mk _ _ _ _), _ => by
      rw [Node.rename, Node.eval, Node.eval]
      exact Action.corresponds_ofExcept rfl

/-- Nodes in turn and the renamed ones correspond. -/
theorem Node.corresponds_evalSequence (last : Option Value) : (nodes : List Node) →
    (∀ name ∈ Node.allNames nodes, known name) →
      Corresponds correspondence (Node.evalSequence last nodes)
        (Node.evalSequence last (Node.renameAll naming nodes))
  | [], _ => corresponds_pure last
  | node :: nodes, within => by
      rw [Node.allNames] at within
      obtain ⟨inFirst, inRest⟩ := List.forall_mem_append.1 within
      rw [Node.renameAll, Node.evalSequence, Node.evalSequence]
      exact (node.corresponds_eval inFirst).bind fun value =>
        Node.corresponds_evalSequence value nodes inRest

end

end TreeWalk
