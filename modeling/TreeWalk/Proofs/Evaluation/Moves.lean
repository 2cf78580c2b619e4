import TreeWalk.Proofs.Syntax.Targets

/-!
# What evaluation does

All that evaluation does to scopes is to declare and to assign, in the scopes that it finds and
in those that it opens and closes again. `Scopes.Moves` says what can be done so with some names
only. The names that a tree assigns or declares are those for which its evaluation does so, and
it prints only if there is a `print` in it.
-/

namespace TreeWalk

/-- What declarations and assignments of the allowed names can make of scopes, with scopes that
are opened in between and closed again. -/
inductive Scopes.Moves (allowed : String → Prop) : Scopes → Scopes → Prop where
  | still {scopes : Scopes} : Moves allowed scopes scopes
  | define {scopes : Scopes} {name : String} (value : Value) (permitted : allowed name) :
      Moves allowed scopes (scopes.define name value)
  | assign {scopes after : Scopes} {name : String} {value : Value} (permitted : allowed name)
      (found : scopes.assign? name value = some after) : Moves allowed scopes after
  | enclosed {scopes after : Scopes} (inside : Moves allowed scopes.push after) :
      Moves allowed scopes after.pop
  | trans {scopes middle after : Scopes} (first : Moves allowed scopes middle)
      (second : Moves allowed middle after) : Moves allowed scopes after

namespace Action

variable {α β : Type} {allowed : String → Prop} {mayPrint : Prop}

/-- The action changes variables of the allowed names at most, and prints only if it may. -/
structure Confined (allowed : String → Prop) (mayPrint : Prop) (action : Action α) : Prop where
  moves (scopes : Scopes) : Scopes.Moves allowed scopes (action scopes).scopes
  silent (scopes : Scopes) : ¬ mayPrint → (action scopes).printed = []

/-- Returning a value changes nothing and prints nothing. -/
theorem confined_pure (value : α) : Confined allowed mayPrint (pure value : Action α) :=
  ⟨fun _ => .still, fun _ _ => rfl⟩

/-- A result changes nothing and prints nothing, also where it is an error. -/
theorem confined_ofExcept (result : Except RuntimeError α) :
    Confined allowed mayPrint (ofExcept result) :=
  ⟨fun _ => .still, fun _ _ => rfl⟩

/-- Printing is confined where it may happen. -/
theorem confined_print (line : String) (may : mayPrint) :
    Confined allowed mayPrint (print line) :=
  ⟨fun _ => .still, fun _ mayNot => absurd may mayNot⟩

/-- A declaration changes its own name at most. -/
theorem confined_define {name : String} (value : Value) (permitted : allowed name) :
    Confined allowed mayPrint (define name value) :=
  ⟨fun _ => .define value permitted, fun _ _ => rfl⟩

/-- A look-up changes nothing and prints nothing. -/
theorem confined_lookup (name : String) (span : Span) :
    Confined allowed mayPrint (lookup name span) := by
  constructor <;> intro scopes <;> unfold lookup
  · split <;> exact .still
  · intro _
    split <;> rfl

/-- An assignment changes its own name at most, and nothing where it finds none. -/
theorem confined_assign {name : Identifier} (value : Value) (permitted : allowed name.name) :
    Confined allowed mayPrint (assign name value) := by
  constructor <;> intro scopes <;> unfold assign
  · split
    next found => exact .assign permitted found
    next => exact .still
  · intro _
    split <;> rfl

/-- A sequence is confined if its parts are. -/
theorem Confined.bind {first : Action α} {next : α → Action β}
    (front : first.Confined allowed mayPrint)
    (behind : ∀ value, (next value).Confined allowed mayPrint) :
    (first >>= next).Confined allowed mayPrint := by
  constructor <;> intro scopes
  · cases outcome : (first scopes).result with
    | ok value =>
        rw [bind_of_ok outcome]
        exact (front.moves scopes).trans ((behind value).moves _)
    | error error =>
        rw [bind_of_error outcome]
        exact front.moves scopes
  · intro mayNot
    cases outcome : (first scopes).result with
    | ok value =>
        rw [bind_of_ok outcome, front.silent _ mayNot, (behind value).silent _ mayNot]
        rfl
    | error error =>
        rw [bind_of_error outcome]
        exact front.silent scopes mayNot

/-- In a scope of its own an action changes no further names. -/
theorem Confined.enclosed {action : Action α} (inside : action.Confined allowed mayPrint) :
    action.enclosed.Confined allowed mayPrint :=
  ⟨fun scopes => .enclosed (inside.moves scopes.push), fun scopes => inside.silent scopes.push⟩

end Action

section Confinement

variable {allowed : String → Prop} {mayPrint : Prop}

open TreeWalk.Action (confined_pure confined_ofExcept)

/-- An expression changes what it assigns. -/
theorem Expr.confined_eval {value : Expr} (permitted : ∀ name ∈ value.assigned, allowed name) :
    value.eval.Confined allowed mayPrint := by
  induction value with
  | terminal token =>
      rw [Expr.eval, Token.eval]
      split
      · exact confined_pure _
      · exact Action.confined_lookup _ _
      · exact confined_ofExcept _
  | group _ _ inside => exact inside permitted
  | unary _ _ _ operand => exact (operand permitted).bind fun _ => confined_ofExcept _
  | binary _ _ _ _ left right =>
      obtain ⟨inLeft, inRight⟩ := List.forall_mem_append.1 permitted
      exact (left inLeft).bind fun _ => (right inRight).bind fun _ => confined_ofExcept _
  | logical _ _ _ _ left right =>
      obtain ⟨inLeft, inRight⟩ := List.forall_mem_append.1 permitted
      refine (left inLeft).bind fun value => ?_
      split
      · exact confined_pure value
      · exact right inRight
  | assign _ _ _ assigned =>
      obtain ⟨inTarget, inValue⟩ := List.forall_mem_cons.1 permitted
      refine (assigned inValue).bind fun value => ?_
      exact (Action.confined_assign value inTarget).bind fun _ => confined_pure value

/-- A condition changes the names that are assigned in it at most. -/
theorem Expr.confined_evalCondition {condition : Expr} (span : Span)
    (permitted : ∀ name ∈ condition.assigned, allowed name) :
    (condition.evalCondition span).Confined allowed mayPrint := by
  refine (Expr.confined_eval permitted).bind fun value => ?_
  split
  · exact confined_pure _
  · exact confined_ofExcept _

/-- Everything in the node declares and assigns allowed names only, and prints only if that may
be. -/
def Node.Confined (allowed : String → Prop) (mayPrint : Prop) (node : Node) : Prop :=
  ∀ part ∈ node.parts, (∀ name ∈ part.ownTargets, allowed name) ∧ (part.isPrint → mayPrint)

namespace Node

variable {node part : Node}

/-- Every node is confined to its targets, and prints only if there is a `print` in it. -/
theorem confined_targets (node : Node) : node.Confined (· ∈ node.targets) node.prints := by
  intro part present
  constructor
  · intro name own
    exact List.mem_flatMap.2 ⟨part, present, own⟩
  · intro printing
    exact List.any_eq_true.2 ⟨part, present, printing⟩

/-- Every node is confined to what may be any name, with leave to print. -/
theorem confined_all (node : Node) : node.Confined (fun _ => True) True :=
  fun _ _ => ⟨fun _ _ => trivial, fun _ => trivial⟩

namespace Confined

/-- The nodes under a confined node are confined. -/
theorem child (confined : node.Confined allowed mayPrint) (direct : part ∈ node.children) :
    part.Confined allowed mayPrint := by
  intro inner inside
  refine confined inner ?_
  rw [parts_eq]
  exact List.mem_cons_of_mem _ (List.mem_flatMap.2 ⟨part, direct, inside⟩)

/-- A confined node itself declares and assigns allowed names only. -/
theorem here (confined : node.Confined allowed mayPrint) :
    (∀ name ∈ node.ownTargets, allowed name) ∧ (node.isPrint → mayPrint) := by
  refine confined node ?_
  rw [parts_eq]
  exact List.mem_cons_self

/-- The expressions of a confined node assign allowed names only. -/
theorem clause {value : Expr} (confined : node.Confined allowed mayPrint)
    (direct : value ∈ node.clauses) : ∀ name ∈ value.assigned, allowed name := by
  intro name assigned
  refine confined.here.1 name (List.mem_append_right _ ?_)
  exact List.mem_flatMap.2 ⟨value, direct, assigned⟩

/-- What a confined declaration declares is allowed. -/
theorem declared {name : Identifier} {initializer : Option Expr} {span : Span}
    (confined : (variableDeclaration name initializer span).Confined allowed mayPrint) :
    allowed name.name :=
  confined.here.1 name.name (List.mem_append_left _ (List.mem_singleton_self _))

end Confined

mutual

/-- A node changes what it assigns and declares, and prints if there is a `print` in it. -/
theorem confined_eval : (node : Node) → node.Confined allowed mayPrint →
    node.eval.Confined allowed mayPrint
  | .expression _, confined => by
      have value := confined.clause List.mem_cons_self
      rw [eval]
      exact (Expr.confined_eval value).bind fun _ => confined_pure _
  | .expressionStatement _ _, confined => by
      have value := confined.clause List.mem_cons_self
      rw [eval]
      exact (Expr.confined_eval value).bind fun _ => confined_pure _
  | .print _ _, confined => by
      have value := confined.clause List.mem_cons_self
      rw [eval]
      refine (Expr.confined_eval value).bind fun _ => ?_
      exact (Action.confined_print _ (confined.here.2 rfl)).bind fun _ => confined_pure _
  | .variableDeclaration _ none _, confined => by
      rw [eval]
      exact (Action.confined_define _ confined.declared).bind fun _ => confined_pure _
  | .variableDeclaration _ (some _) _, confined => by
      have initial := confined.clause List.mem_cons_self
      rw [eval]
      refine (Expr.confined_eval initial).bind fun _ => ?_
      exact (Action.confined_define _ confined.declared).bind fun _ => confined_pure _
  | .block body _, confined => by
      rw [eval]
      exact (confined_evalSequence none body fun _ direct => confined.child direct).enclosed
  | .conditional _ thenBranch none span, confined => by
      have condition := confined.clause List.mem_cons_self
      rw [eval]
      refine (Expr.confined_evalCondition span condition).bind fun holds => ?_
      split
      · exact thenBranch.confined_eval (confined.child List.mem_cons_self)
      · exact confined_pure _
  | .conditional _ thenBranch (some elseBranch) span, confined => by
      have condition := confined.clause List.mem_cons_self
      rw [eval]
      refine (Expr.confined_evalCondition span condition).bind fun holds => ?_
      split
      · exact thenBranch.confined_eval (confined.child (List.mem_pair.2 (.inl rfl)))
      · exact elseBranch.confined_eval (confined.child (List.mem_pair.2 (.inr rfl)))
  -- What is not covered fails before it does anything.
  | .whileLoop _ _ _, _ => confined_ofExcept _
  | .forLoop _ _ _ _ _, _ => confined_ofExcept _
  | .returned _ _, _ => confined_ofExcept _
  | .classDeclaration _ _ _ _, _ => confined_ofExcept _
  | .functionDeclaration _, _ => confined_ofExcept _

/-- Nodes in turn change what they assign and declare. -/
theorem confined_evalSequence (last : Option Value) : (nodes : List Node) →
    (∀ node ∈ nodes, node.Confined allowed mayPrint) →
      (evalSequence last nodes).Confined allowed mayPrint
  | [], _ => confined_pure _
  | node :: nodes, confined => by
      obtain ⟨here, behind⟩ := List.forall_mem_cons.1 confined
      rw [evalSequence]
      exact (node.confined_eval here).bind fun value => confined_evalSequence value nodes behind

end

end Node

end Confinement

end TreeWalk
