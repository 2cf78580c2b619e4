import TreeWalk.Proofs.Evaluation.Resolved
import TreeWalk.Proofs.Syntax.Names
import TreeWalk.Proofs.Syntax.Parts

/-!
# Targets

The names that a tree may give a value to: those that it assigns or declares, at any depth.
They are among the names that occur in it. Of the declarations those outside of blocks are
told apart, as the others go with the scopes of their blocks.
-/

namespace TreeWalk

/-- The names that are assigned in the expression. -/
def Expr.assigned : Expr → List String
  | .terminal _ => []
  | .group inner _ => inner.assigned
  | .unary _ operand _ => operand.assigned
  | .binary left _ right _ => left.assigned ++ right.assigned
  | .logical left _ right _ => left.assigned ++ right.assigned
  | .assign target value _ => target.name :: value.assigned

namespace Node

/-- The names that the node itself declares or assigns, not the nodes in it. -/
def ownTargets (node : Node) : List String :=
  node.declared?.toList ++ node.clauses.flatMap Expr.assigned

/-- The names that are assigned or declared by `var` anywhere in the node. -/
def targets (node : Node) : List String :=
  node.parts.flatMap ownTargets

/-- Whether the node is a `print` statement. -/
def isPrint : Node → Bool
  | .print _ _ => true
  | _ => false

/-- Whether there is a `print` statement anywhere in the node. -/
def prints (node : Node) : Bool :=
  node.parts.any isPrint

/-- The names that are declared by `var` in the node, but not in a block of it nor in the body of
a function. -/
def locals : Node → List String
  | .variableDeclaration name _ _ => [name.name]
  | .conditional _ thenBranch none _ => thenBranch.locals
  | .conditional _ thenBranch (some elseBranch) _ => thenBranch.locals ++ elseBranch.locals
  | .whileLoop _ body _ => body.locals
  | .forLoop none _ _ body _ => body.locals
  | .forLoop (some initializer) _ _ body _ => initializer.locals ++ body.locals
  | _ => []

end Node

/-- What is assigned in an expression occurs in it. -/
theorem Expr.mem_names_of_assigned {value : Expr} {name : String} (inside : name ∈ value.assigned) :
    name ∈ value.names := by
  induction value with
  | terminal => cases inside
  | group _ _ inner => exact inner inside
  | unary _ _ _ operand => exact operand inside
  | binary _ _ _ _ left right | logical _ _ _ _ left right =>
      exact List.mem_append.2 ((List.mem_append.1 inside).imp left right)
  | assign _ _ _ assigned =>
      exact List.mem_cons.2 ((List.mem_cons.1 inside).imp_right assigned)

/-- The names in an expression that is not left out are among those of its place. -/
theorem Expr.mem_optionNames {present : Option Expr} {value : Expr} {name : String}
    (direct : value ∈ present) (inside : name ∈ value.names) : name ∈ optionNames present :=
  List.mem_flatMap.2 ⟨value, Option.mem_toList.2 direct, inside⟩

/-- The names in a node are among those of the nodes that it is one of. -/
theorem Node.mem_allNames {nodes : List Node} {node : Node} {name : String}
    (present : node ∈ nodes) (inside : name ∈ node.names) : name ∈ allNames nodes := by
  induction nodes with
  | nil => cases present
  | cons first others inductionHypothesis =>
      cases present with
      | head => exact List.mem_append_left _ inside
      | tail _ later => exact List.mem_append_right _ (inductionHypothesis later)

/-- The names in the body of a function are among those of the function. -/
theorem Function.mem_names_of_body {function : Function} {node : Node} {name : String}
    (present : node ∈ function.body) (inside : name ∈ node.names) : name ∈ function.names := by
  obtain ⟨_, parameters, body, _⟩ := function
  have held : name ∈ Node.allNames body := Node.mem_allNames present inside
  simp [names, held]

/-- The names in a function are among those of the functions that it is one of. -/
theorem Function.mem_allNames {functions : List Function} {function : Function} {name : String}
    (present : function ∈ functions) (inside : name ∈ function.names) :
    name ∈ allNames functions := by
  induction functions with
  | nil => cases present
  | cons first others inductionHypothesis =>
      cases present with
      | head => exact List.mem_append_left _ inside
      | tail _ later => exact List.mem_append_right _ (inductionHypothesis later)

namespace Node

variable {node part : Node} {value : Expr} {name : String}

/-- The names in the expressions of a node occur in it. -/
theorem mem_names_of_clause (direct : value ∈ node.clauses) (inside : name ∈ value.names) :
    name ∈ node.names := by
  cases node with
  | expression | expressionStatement | print =>
      obtain rfl := List.mem_singleton.1 direct
      exact inside
  | variableDeclaration =>
      exact List.mem_cons_of_mem _ (Expr.mem_optionNames (Option.mem_toList.1 direct) inside)
  | conditional _ _ elseBranch =>
      obtain rfl := List.mem_singleton.1 direct
      cases elseBranch <;> exact List.mem_append_left _ inside
  | whileLoop =>
      obtain rfl := List.mem_singleton.1 direct
      exact List.mem_append_left _ inside
  | forLoop initializer condition increment =>
      have either : name ∈ Expr.optionNames condition ∨ name ∈ Expr.optionNames increment :=
        (List.mem_append.1 direct).imp
          (fun asked => Expr.mem_optionNames (Option.mem_toList.1 asked) inside)
          (fun step => Expr.mem_optionNames (Option.mem_toList.1 step) inside)
      rcases either with held | held <;> cases initializer <;> simp [names, held]
  | returned => exact Expr.mem_optionNames (Option.mem_toList.1 direct) inside
  | block | classDeclaration | functionDeclaration => cases direct

/-- The names in the nodes under a node occur in it. -/
theorem mem_names_of_child (direct : part ∈ node.children) (inside : name ∈ part.names) :
    name ∈ node.names := by
  cases node with
  | block => exact mem_allNames direct inside
  | conditional _ _ elseBranch =>
      cases elseBranch with
      | none =>
          obtain rfl := List.mem_singleton.1 direct
          exact List.mem_append_right _ inside
      | some => rcases List.mem_pair.1 direct with rfl | rfl <;> simp [names, inside]
  | whileLoop =>
      obtain rfl := List.mem_singleton.1 direct
      exact List.mem_append_right _ inside
  | forLoop initializer =>
      cases initializer with
      | none =>
          obtain rfl := List.mem_singleton.1 direct
          simp [names, inside]
      | some => rcases List.mem_pair.1 direct with rfl | rfl <;> simp [names, inside]
  | classDeclaration =>
      obtain ⟨method, present, held⟩ := List.mem_flatMap.1 direct
      have occurs := Function.mem_allNames present (Function.mem_names_of_body held inside)
      simp [names, occurs]
  | functionDeclaration => exact Function.mem_names_of_body direct inside
  | expression | expressionStatement | print | variableDeclaration | returned => cases direct

/-- What a node itself declares or assigns is among its names. -/
theorem mem_names_of_ownTargets (inside : name ∈ node.ownTargets) : name ∈ node.names := by
  rcases List.mem_append.1 inside with declared | assigned
  · cases node with
    | variableDeclaration =>
        obtain rfl := List.mem_singleton.1 declared
        exact List.mem_cons_self
    | _ => cases declared
  · obtain ⟨value, direct, held⟩ := List.mem_flatMap.1 assigned
    exact mem_names_of_clause direct (Expr.mem_names_of_assigned held)

/-- The targets of a node occur in it. -/
theorem mem_names_of_targets (inside : name ∈ node.targets) : name ∈ node.names := by
  obtain ⟨part, present, own⟩ := List.mem_flatMap.1 inside
  have passed := (mem_parts_iff.1 present).inherits
    (fun tree => ∀ other ∈ tree.names, other ∈ node.names)
    (fun tree holds child direct other held => holds other (mem_names_of_child direct held))
    (fun _ => id)
  exact passed name (mem_names_of_ownTargets own)

end Node

end TreeWalk
