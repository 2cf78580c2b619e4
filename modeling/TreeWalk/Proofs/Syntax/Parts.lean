import Mathlib.Data.List.Basic
import TreeWalk.Proofs.Syntax.Shape
import TreeWalk.Proofs.Syntax.Written

/-!
# Parts of trees

The trees directly under a tree, and those at any depth. A part of a well-shaped tree is
well-shaped, and it is written among the tokens of the whole.
-/

namespace TreeWalk

/-- The expressions directly under an expression. -/
def Expr.operands : Expr → List Expr
  | .terminal _ => []
  | .group inner _ => [inner]
  | .unary _ operand _ => [operand]
  | .binary left _ right _ => [left, right]
  | .logical left _ right _ => [left, right]
  | .assign _ value _ => [value]

/-- The expressions directly under a node. -/
def Node.clauses : Node → List Expr
  | .expression value => [value]
  | .expressionStatement value _ => [value]
  | .print value _ => [value]
  | .variableDeclaration _ initializer _ => initializer.toList
  | .block _ _ => []
  | .conditional condition _ _ _ => [condition]
  | .whileLoop condition _ _ => [condition]
  | .forLoop _ condition increment _ _ => condition.toList ++ increment.toList
  | .returned value _ => value.toList
  | .classDeclaration _ _ _ _ => []
  | .functionDeclaration _ => []

/-- The nodes directly under a node, those in the bodies of functions and methods included. -/
def Node.children : Node → List Node
  | .expression _ => []
  | .expressionStatement _ _ => []
  | .print _ _ => []
  | .variableDeclaration _ _ _ => []
  | .block body _ => body
  | .conditional _ thenBranch elseBranch _ => thenBranch :: elseBranch.toList
  | .whileLoop _ body _ => [body]
  | .forLoop initializer _ _ body _ => initializer.toList ++ [body]
  | .returned _ _ => []
  | .classDeclaration _ _ methods _ => methods.flatMap Function.body
  | .functionDeclaration function => function.body

mutual

/-- The nodes in the bodies of the functions, at any depth. -/
def Function.allParts : List Function → List Node
  | [] => []
  | .mk _ _ body _ :: functions => Node.allParts body ++ Function.allParts functions

/-- The node and all nodes in it, at any depth. -/
def Node.parts : Node → List Node
  | node@(.block body _) => node :: Node.allParts body
  | node@(.conditional _ thenBranch none _) => node :: thenBranch.parts
  | node@(.conditional _ thenBranch (some elseBranch) _) =>
      node :: (thenBranch.parts ++ elseBranch.parts)
  | node@(.whileLoop _ body _) => node :: body.parts
  | node@(.forLoop none _ _ body _) => node :: body.parts
  | node@(.forLoop (some initializer) _ _ body _) => node :: (initializer.parts ++ body.parts)
  | node@(.classDeclaration _ _ methods _) => node :: Function.allParts methods
  | node@(.functionDeclaration (.mk _ _ body _)) => node :: Node.allParts body
  | node => [node]

/-- The nodes and all nodes in them, at any depth. -/
def Node.allParts : List Node → List Node
  | [] => []
  | node :: nodes => node.parts ++ Node.allParts nodes

end

/-- A tree at any depth of another, or that other itself, by what is directly under each. -/
inductive Within {α : Type} (under : α → List α) : α → α → Prop where
  | here {tree : α} : Within under tree tree
  | deeper {part next tree : α} (direct : next ∈ under tree) (inside : Within under part next) :
      Within under part tree

/-- What each tree passes on to those directly under it goes down to any depth. -/
theorem Within.inherits {α : Type} {under : α → List α} {part tree : α}
    (inside : Within under part tree) (property : α → Prop)
    (passes : ∀ whole, property whole → ∀ next ∈ under whole, property next)
    (holds : property tree) : property part := by
  induction inside with
  | here => exact holds
  | deeper direct _ inductionHypothesis => exact inductionHypothesis (passes _ holds _ direct)

/-- The tree is written as some of the tokens. -/
def Among {α : Type} (written : α → List Token → Prop) (tokens : List Token) (tree : α) : Prop :=
  ∃ own, written tree own ∧ own ⊆ tokens

/-- What stands among tokens stands among any tokens that have these. -/
theorem Among.subset {α : Type} {written : α → List Token → Prop} {tokens others : List Token}
    {tree : α} (among : Among written tokens tree) (fewer : tokens ⊆ others) :
    Among written others tree := by
  obtain ⟨own, spelled, subset⟩ := among
  exact ⟨own, spelled, List.Subset.trans subset fewer⟩

namespace Expr

variable {value part : Expr} {tokens : List Token}

/-- The operands of a well-shaped expression are well-shaped. -/
theorem WellShaped.operand (shaped : value.WellShaped) (direct : part ∈ value.operands) :
    part.WellShaped := by
  cases value with
  | terminal => cases direct
  | group | assign =>
      obtain rfl := List.mem_singleton.1 direct
      exact shaped
  | unary =>
      obtain rfl := List.mem_singleton.1 direct
      exact shaped.1
  | binary | logical =>
      rcases List.mem_pair.1 direct with rfl | rfl
      · exact shaped.1
      · exact shaped.2.1

/-- The operands of an expression stand among its tokens. -/
theorem among_operand (among : Among Written tokens value) (direct : part ∈ value.operands) :
    Among Written tokens part := by
  obtain ⟨own, written, subset⟩ := among
  -- It is enough that the part is written within the tokens of the whole.
  refine Among.subset ?_ subset
  cases written with
  | terminal => cases direct
  | group closing inside =>
      obtain rfl := List.mem_singleton.1 direct
      exact ⟨_, inside, by simp⟩
  | unary behind | assign behind =>
      obtain rfl := List.mem_singleton.1 direct
      exact ⟨_, behind, by simp⟩
  | binary before behind | logical before behind =>
      rcases List.mem_pair.1 direct with rfl | rfl
      · exact ⟨_, before, by simp⟩
      · exact ⟨_, behind, by simp⟩

/-- All that stands in a well-shaped expression is well-shaped. -/
theorem WellShaped.within (shaped : value.WellShaped) (inside : Within operands part value) :
    part.WellShaped :=
  inside.inherits WellShaped (fun _ holds _ direct => holds.operand direct) shaped

/-- All that stands in an expression stands among its tokens. -/
theorem among_within (among : Among Written tokens value) (inside : Within operands part value) :
    Among Written tokens part :=
  inside.inherits (Among Written tokens) (fun _ holds _ direct => among_operand holds direct) among

/-- An expression that is not left out stands among the tokens of its place. -/
theorem OptionWritten.among {present : Option Expr} (written : OptionWritten present tokens)
    (direct : value ∈ present) : Among Written tokens value := by
  cases written with
  | none => cases direct
  | some stated =>
      obtain rfl := Option.mem_some.1 direct
      exact ⟨_, stated, List.Subset.refl _⟩

end Expr

/-- Each of well-shaped methods is well-shaped. -/
theorem Function.MethodsWellShaped.method {methods : List Function}
    (shaped : MethodsWellShaped methods) {method : Function} (present : method ∈ methods) :
    method.WellShaped := by
  induction methods with
  | nil => cases present
  | cons first others inductionHypothesis =>
      obtain ⟨here, _, behind⟩ := shaped
      cases present with
      | head => exact here
      | tail _ later => exact inductionHypothesis behind later

namespace Node

variable {node part : Node} {nodes : List Node} {value : Expr} {tokens : List Token}

/-- Each of well-shaped nodes is well-shaped. -/
theorem AllWellShaped.of_mem (shaped : AllWellShaped nodes) (present : node ∈ nodes) :
    node.WellShaped := by
  induction nodes with
  | nil => cases present
  | cons first others inductionHypothesis =>
      obtain ⟨here, behind⟩ := shaped
      cases present with
      | head => exact here
      | tail _ later => exact inductionHypothesis behind later

/-- The expressions in a well-shaped node are well-shaped. -/
theorem WellShaped.clause (shaped : node.WellShaped) (direct : value ∈ node.clauses) :
    value.WellShaped := by
  cases node with
  | expression => cases shaped
  | expressionStatement =>
      obtain rfl := List.mem_singleton.1 direct
      exact shaped.1
  | print =>
      obtain rfl := List.mem_singleton.1 direct
      exact shaped
  | variableDeclaration | returned => exact shaped value (Option.mem_toList.1 direct)
  | conditional condition thenBranch elseBranch =>
      obtain rfl := List.mem_singleton.1 direct
      cases elseBranch <;> exact shaped.1
  | whileLoop =>
      obtain rfl := List.mem_singleton.1 direct
      exact shaped.1
  | forLoop initializer condition increment body =>
      -- A `for` with a first clause is well-shaped by other rules than one without.
      have both : (∀ value ∈ condition, value.WellShaped) ∧
          ∀ value ∈ increment, value.WellShaped := by
        cases initializer with
        | none => exact ⟨shaped.1, shaped.2.1⟩
        | some => exact ⟨shaped.2.1, shaped.2.2.1⟩
      rcases List.mem_append.1 direct with asked | step
      · exact both.1 value (Option.mem_toList.1 asked)
      · exact both.2 value (Option.mem_toList.1 step)
  | block | classDeclaration | functionDeclaration => cases direct

/-- The nodes under a well-shaped node are well-shaped. -/
theorem WellShaped.child (shaped : node.WellShaped) (direct : part ∈ node.children) :
    part.WellShaped := by
  cases node with
  | block => exact shaped.2.of_mem direct
  | conditional condition thenBranch elseBranch =>
      cases elseBranch with
      | none =>
          obtain rfl := List.mem_singleton.1 direct
          exact shaped.2.1
      | some =>
          rcases List.mem_pair.1 direct with rfl | rfl
          · exact shaped.2.1.1
          · exact shaped.2.2.2.1
  | whileLoop =>
      obtain rfl := List.mem_singleton.1 direct
      exact shaped.2.1
  | forLoop initializer =>
      cases initializer with
      | none =>
          obtain rfl := List.mem_singleton.1 direct
          exact shaped.2.2.1
      | some =>
          rcases List.mem_pair.1 direct with rfl | rfl
          · exact shaped.1.1
          · exact shaped.2.2.2.1
  | classDeclaration =>
      obtain ⟨method, present, inside⟩ := List.mem_flatMap.1 direct
      cases method
      exact (Function.MethodsWellShaped.method shaped present).2.of_mem inside
  | functionDeclaration function =>
      cases function
      exact shaped.2.of_mem direct
  | expression | expressionStatement | print | variableDeclaration | returned => cases direct

/-- Each of the nodes that are written one after the other stands among their tokens. -/
theorem AllWritten.among (written : AllWritten nodes tokens) (present : node ∈ nodes) :
    Among Written tokens node := by
  induction nodes generalizing tokens with
  | nil => cases present
  | cons first others inductionHypothesis =>
      cases written with
      | cons here behind =>
          cases present with
          | head => exact ⟨_, here, by simp⟩
          | tail _ later => exact (inductionHypothesis behind later).subset (by simp)

end Node

/-- The nodes in the body of a function stand among its tokens. -/
theorem Function.Written.among {declared : Function} {tokens : List Token} {node : Node}
    (written : declared.Written tokens) (present : node ∈ declared.body) :
    Among Node.Written tokens node := by
  cases written with
  | mk _ _ _ _ _ held => exact (held.among present).subset fun _ inside => by simp [inside]

/-- The nodes in the bodies of methods stand among the tokens of the methods. -/
theorem Function.MethodsWritten.among {methods : List Function} {tokens : List Token}
    {method : Function} {node : Node} (written : MethodsWritten methods tokens)
    (present : method ∈ methods) (inside : node ∈ method.body) :
    Among Node.Written tokens node := by
  induction methods generalizing tokens with
  | nil => cases present
  | cons first others inductionHypothesis =>
      cases written with
      | cons here _ behind =>
          cases present with
          | head => exact (here.among inside).subset (by simp)
          | tail _ later => exact (inductionHypothesis behind later).subset (by simp)

namespace Node

variable {node part : Node} {value : Expr} {tokens : List Token}

/-- The expressions in a node stand among its tokens. -/
theorem among_clause (among : Among Written tokens node) (direct : value ∈ node.clauses) :
    Among Expr.Written tokens value := by
  obtain ⟨own, written, subset⟩ := among
  refine Among.subset ?_ subset
  cases written with
  | expression stated =>
      obtain rfl := List.mem_singleton.1 direct
      exact ⟨_, stated, List.Subset.refl _⟩
  | expressionStatement _ stated | print _ stated | conditional stated _
  | alternative _ stated _ _ | whileLoop stated _ =>
      obtain rfl := List.mem_singleton.1 direct
      exact ⟨_, stated, by simp⟩
  | variableDeclaration _ initial =>
      cases initial with
      | none => cases direct
      | some _ stated =>
          obtain rfl := List.mem_singleton.1 direct
          exact ⟨_, stated, fun _ inside => by simp [inside]⟩
  | forLoop _ _ _ _ test advance _ =>
      rcases List.mem_append.1 direct with asked | step
      · exact (test.among (Option.mem_toList.1 asked)).subset fun _ inside => by simp [inside]
      · exact (advance.among (Option.mem_toList.1 step)).subset fun _ inside => by simp [inside]
  | returned _ result => exact (result.among (Option.mem_toList.1 direct)).subset (by simp)
  | block | classDeclaration | functionDeclaration => cases direct

/-- The nodes under a node stand among its tokens. -/
theorem among_child (among : Among Written tokens node) (direct : part ∈ node.children) :
    Among Written tokens part := by
  obtain ⟨own, written, subset⟩ := among
  refine Among.subset ?_ subset
  cases written with
  | block _ held => exact (held.among direct).subset (by simp)
  | conditional _ positive =>
      obtain rfl := List.mem_singleton.1 direct
      exact ⟨_, positive, by simp⟩
  | alternative _ _ positive negative =>
      rcases List.mem_pair.1 direct with rfl | rfl
      · exact ⟨_, positive, fun _ inside => by simp [inside]⟩
      · exact ⟨_, negative, fun _ inside => by simp [inside]⟩
  | whileLoop _ again =>
      obtain rfl := List.mem_singleton.1 direct
      exact ⟨_, again, by simp⟩
  | forLoop _ _ _ initial _ _ again =>
      rcases List.mem_append.1 direct with first | body
      · cases initial with
        | none => cases first
        | some present =>
            obtain rfl := List.mem_singleton.1 first
            exact ⟨_, present, fun _ inside => by simp [inside]⟩
      · obtain rfl := List.mem_singleton.1 body
        exact ⟨_, again, fun _ inside => by simp [inside]⟩
  | classDeclaration _ _ _ held =>
      obtain ⟨method, present, inside⟩ := List.mem_flatMap.1 direct
      exact (held.among present inside).subset fun _ inside => by simp [inside]
  | functionDeclaration declared => exact (declared.among direct).subset (by simp)
  | expression | expressionStatement | print | variableDeclaration | returned => cases direct

/-- All that stands in a well-shaped node is well-shaped. -/
theorem WellShaped.within (shaped : node.WellShaped) (inside : Within children part node) :
    part.WellShaped :=
  inside.inherits WellShaped (fun _ holds _ direct => holds.child direct) shaped

/-- All that stands in a node stands among its tokens. -/
theorem among_within (among : Among Written tokens node) (inside : Within children part node) :
    Among Written tokens part :=
  inside.inherits (Among Written tokens) (fun _ holds _ direct => among_child holds direct) among

end Node

namespace Node

/-- The parts of nodes are the parts of each of them. -/
theorem allParts_eq (nodes : List Node) : allParts nodes = nodes.flatMap parts := by
  induction nodes with
  | nil => rfl
  | cons node nodes inductionHypothesis => rw [allParts, inductionHypothesis, List.flatMap_cons]

end Node

/-- The parts of functions are the parts of the nodes in their bodies. -/
theorem Function.allParts_eq (functions : List Function) :
    allParts functions = (functions.flatMap body).flatMap Node.parts := by
  induction functions with
  | nil => rfl
  | cons function functions inductionHypothesis =>
      cases function
      rw [allParts, inductionHypothesis, Node.allParts_eq, List.flatMap_cons, body,
        List.flatMap_append]

namespace Node

variable {node part : Node}

/-- The parts of a node are the node and the parts of the nodes directly under it. -/
theorem parts_eq (node : Node) : node.parts = node :: node.children.flatMap parts := by
  cases node with
  | block body => rw [parts, allParts_eq, children]
  | conditional _ _ elseBranch => cases elseBranch <;> simp [parts, children]
  | whileLoop => simp [parts, children]
  | forLoop initializer => cases initializer <;> simp [parts, children]
  | classDeclaration => rw [parts, Function.allParts_eq, children]
  | functionDeclaration function =>
      cases function
      rw [parts, allParts_eq, children, Function.body]
  | expression | expressionStatement | print | variableDeclaration | returned => rfl

/-- What stands directly under a node is smaller. -/
theorem sizeOf_lt_of_child (direct : part ∈ node.children) : sizeOf part < sizeOf node := by
  cases node with
  | block body =>
      have smaller := List.sizeOf_lt_of_mem (show part ∈ body from direct)
      rw [block.sizeOf_spec]
      omega
  | conditional _ thenBranch elseBranch =>
      rw [conditional.sizeOf_spec]
      cases elseBranch with
      | none =>
          obtain rfl := List.mem_singleton.1 direct
          omega
      | some otherwise =>
          rw [Option.some.sizeOf_spec]
          rcases List.mem_pair.1 direct with rfl | rfl <;> omega
  | whileLoop =>
      obtain rfl := List.mem_singleton.1 direct
      rw [whileLoop.sizeOf_spec]
      omega
  | forLoop initializer =>
      rw [forLoop.sizeOf_spec]
      cases initializer with
      | none =>
          obtain rfl := List.mem_singleton.1 direct
          omega
      | some first =>
          rw [Option.some.sizeOf_spec]
          rcases List.mem_pair.1 direct with rfl | rfl <;> omega
  | classDeclaration _ _ methods =>
      obtain ⟨method, present, inside⟩ := List.mem_flatMap.1 direct
      have smallerMethod := List.sizeOf_lt_of_mem present
      obtain ⟨_, _, body, _⟩ := method
      have smaller := List.sizeOf_lt_of_mem (show part ∈ body from inside)
      rw [Function.mk.sizeOf_spec] at smallerMethod
      rw [classDeclaration.sizeOf_spec]
      omega
  | functionDeclaration function =>
      obtain ⟨_, _, body, _⟩ := function
      have smaller := List.sizeOf_lt_of_mem (show part ∈ body from direct)
      rw [functionDeclaration.sizeOf_spec, Function.mk.sizeOf_spec]
      omega
  | expression | expressionStatement | print | variableDeclaration | returned => cases direct

/-- Only what stands in a node is one of its parts. -/
theorem within_of_mem_parts (node : Node) (present : part ∈ node.parts) :
    Within children part node := by
  rw [parts_eq] at present
  rcases List.mem_cons.1 present with rfl | deeper
  · exact .here
  · obtain ⟨child, direct, inside⟩ := List.mem_flatMap.1 deeper
    exact .deeper direct (within_of_mem_parts child inside)
termination_by sizeOf node
decreasing_by exact sizeOf_lt_of_child direct

/-- The parts are the nodes at any depth. -/
theorem mem_parts_iff : part ∈ node.parts ↔ Within children part node := by
  refine ⟨within_of_mem_parts node, fun inside => ?_⟩
  induction inside with
  | here =>
      rw [parts_eq]
      exact List.mem_cons_self
  | deeper direct _ inductionHypothesis =>
      rw [parts_eq]
      exact List.mem_cons_of_mem _ (List.mem_flatMap.2 ⟨_, direct, inductionHypothesis⟩)

end Node

end TreeWalk
