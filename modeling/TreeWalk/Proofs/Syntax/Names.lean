import TreeWalk.Error

/-!
# Names in trees

The names that occur in a tree, wherever they are read, assigned or declared, and trees with
other names in their places. Renaming changes nothing else: the shapes of trees, their literals
and their spans stay.
-/

namespace TreeWalk

/-- The name, if the token is one. -/
def Token.names (token : Token) : List String :=
  match token.kind with
  | .identifier name => [name]
  | _ => []

/-- The names that are read or assigned in the expression. -/
def Expr.names : Expr → List String
  | .terminal token => token.names
  | .group inner _ => inner.names
  | .unary _ operand _ => operand.names
  | .binary left _ right _ => left.names ++ right.names
  | .logical left _ right _ => left.names ++ right.names
  | .assign target value _ => target.name :: value.names

/-- The names in an expression that may be absent. -/
def Expr.optionNames (value : Option Expr) : List String :=
  value.toList.flatMap Expr.names

mutual

/-- The names in the function: its own, those of its parameters and those in its body. -/
def Function.names : Function → List String
  | .mk name parameters body _ =>
      name.name :: (parameters.map Identifier.name ++ Node.allNames body)

/-- The names in the functions. -/
def Function.allNames : List Function → List String
  | [] => []
  | function :: functions => function.names ++ Function.allNames functions

/-- The names that occur in the node. -/
def Node.names : Node → List String
  | .expression value => value.names
  | .expressionStatement value _ => value.names
  | .print value _ => value.names
  | .variableDeclaration name initializer _ => name.name :: Expr.optionNames initializer
  | .block body _ => Node.allNames body
  | .conditional condition thenBranch none _ => condition.names ++ thenBranch.names
  | .conditional condition thenBranch (some elseBranch) _ =>
      condition.names ++ (thenBranch.names ++ elseBranch.names)
  | .whileLoop condition body _ => condition.names ++ body.names
  | .forLoop none condition increment body _ =>
      Expr.optionNames condition ++ (Expr.optionNames increment ++ body.names)
  | .forLoop (some initializer) condition increment body _ =>
      initializer.names ++
        (Expr.optionNames condition ++ (Expr.optionNames increment ++ body.names))
  | .returned value _ => Expr.optionNames value
  | .classDeclaration name superclass methods _ =>
      name.name :: (superclass.toList.map Identifier.name ++ Function.allNames methods)
  | .functionDeclaration function => function.names

/-- The names that occur in the nodes. -/
def Node.allNames : List Node → List String
  | [] => []
  | node :: nodes => node.names ++ Node.allNames nodes

end

section Renaming

variable (naming : String → String)

/-- The kind with its name renamed, if it is an identifier. -/
def Kind.rename : Kind → Kind
  | .identifier name => .identifier (naming name)
  | kind => kind

/-- The token with its name renamed, if it is one. -/
def Token.rename (token : Token) : Token :=
  { token with kind := token.kind.rename naming }

/-- The other name at the same place. -/
def Identifier.rename (name : Identifier) : Identifier :=
  { name with name := naming name.name }

/-- The expression with every name renamed. -/
def Expr.rename : Expr → Expr
  | .terminal token => .terminal (token.rename naming)
  | .group inner span => .group inner.rename span
  | .unary operator operand span => .unary operator operand.rename span
  | .binary left operator right span => .binary left.rename operator right.rename span
  | .logical left operator right span => .logical left.rename operator right.rename span
  | .assign target value span => .assign (target.rename naming) value.rename span

mutual

/-- The function with every name renamed, its own and those of its parameters too. -/
def Function.rename : Function → Function
  | .mk name parameters body span =>
      .mk (name.rename naming) (parameters.map (Identifier.rename naming))
        (Node.renameAll body) span

/-- The functions with every name renamed. -/
def Function.renameAll : List Function → List Function
  | [] => []
  | function :: functions => function.rename :: Function.renameAll functions

/-- The node with every name renamed. -/
def Node.rename : Node → Node
  | .expression value => .expression (value.rename naming)
  | .expressionStatement value span => .expressionStatement (value.rename naming) span
  | .print value span => .print (value.rename naming) span
  | .variableDeclaration name initializer span =>
      .variableDeclaration (name.rename naming) (initializer.map (Expr.rename naming)) span
  | .block body span => .block (Node.renameAll body) span
  | .conditional condition thenBranch none span =>
      .conditional (condition.rename naming) thenBranch.rename none span
  | .conditional condition thenBranch (some elseBranch) span =>
      .conditional (condition.rename naming) thenBranch.rename (some elseBranch.rename) span
  | .whileLoop condition body span => .whileLoop (condition.rename naming) body.rename span
  | .forLoop none condition increment body span =>
      .forLoop none (condition.map (Expr.rename naming))
        (increment.map (Expr.rename naming)) body.rename span
  | .forLoop (some initializer) condition increment body span =>
      .forLoop (some initializer.rename) (condition.map (Expr.rename naming))
        (increment.map (Expr.rename naming)) body.rename span
  | .returned value span => .returned (value.map (Expr.rename naming)) span
  | .classDeclaration name superclass methods span =>
      .classDeclaration (name.rename naming) (superclass.map (Identifier.rename naming))
        (Function.renameAll methods) span
  | .functionDeclaration function => .functionDeclaration function.rename

/-- The nodes with every name renamed. -/
def Node.renameAll : List Node → List Node
  | [] => []
  | node :: nodes => node.rename :: Node.renameAll nodes

end

/-- The error about the other name, if it is about a variable. -/
def RuntimeError.rename : RuntimeError → RuntimeError
  | undefinedVariable name span => undefinedVariable (naming name) span
  | typeMismatch operation expected span => typeMismatch operation expected span
  | notImplemented construct span => notImplemented construct span

end Renaming

section Identity

@[simp] theorem Kind.rename_id (kind : Kind) : kind.rename id = kind := by
  cases kind <;> rfl

@[simp] theorem Token.rename_id (token : Token) : token.rename id = token := by
  rw [rename, Kind.rename_id]

@[simp] theorem Identifier.rename_id : Identifier.rename id = id := rfl

/-- An expression is left as it is by the renaming that keeps every name. -/
@[simp] theorem Expr.rename_id : Expr.rename id = id := by
  funext value
  induction value with
  | terminal token => rw [rename, Token.rename_id, id]
  | group inner _ inside => rw [rename, inside, id, id]
  | unary _ _ _ behind => rw [rename, behind, id, id]
  | binary _ _ _ _ before behind => rw [rename, before, behind, id, id, id]
  | logical _ _ _ _ before behind => rw [rename, before, behind, id, id, id]
  | assign target _ _ behind => rw [rename, behind, Identifier.rename_id, id, id, id]

mutual

/-- A function is what it is under its own names. -/
theorem Function.rename_id : (function : Function) → function.rename id = function
  | .mk name parameters body span => by
      simp [Function.rename, Node.renameAll_id body]

/-- Functions are what they are under their own names. -/
theorem Function.renameAll_id : (functions : List Function) →
    Function.renameAll id functions = functions
  | [] => rfl
  | function :: functions => by
      rw [Function.renameAll, function.rename_id, Function.renameAll_id functions]

/-- A node is left as it is by the renaming that keeps every name. -/
theorem Node.rename_id : (node : Node) → node.rename id = node
  | .expression value => by simp [Node.rename]
  | .expressionStatement value _ => by simp [Node.rename]
  | .print value _ => by simp [Node.rename]
  | .variableDeclaration name initializer _ => by simp [Node.rename]
  | .block body _ => by rw [Node.rename, Node.renameAll_id body]
  | .conditional condition thenBranch none _ => by simp [Node.rename, thenBranch.rename_id]
  | .conditional condition thenBranch (some elseBranch) _ => by
      simp [Node.rename, thenBranch.rename_id, elseBranch.rename_id]
  | .whileLoop condition body _ => by simp [Node.rename, body.rename_id]
  | .forLoop none condition increment body _ => by simp [Node.rename, body.rename_id]
  | .forLoop (some initializer) condition increment body _ => by
      simp [Node.rename, initializer.rename_id, body.rename_id]
  | .returned value _ => by simp [Node.rename]
  | .classDeclaration name superclass methods _ => by
      simp [Node.rename, Function.renameAll_id methods]
  | .functionDeclaration function => by rw [Node.rename, function.rename_id]

/-- Nodes are what they are under their own names. -/
theorem Node.renameAll_id : (nodes : List Node) → Node.renameAll id nodes = nodes
  | [] => rfl
  | node :: nodes => by rw [Node.renameAll, node.rename_id, Node.renameAll_id nodes]

end

/-- An error is what it is under its own name. -/
theorem RuntimeError.rename_id : RuntimeError.rename id = id := by
  funext error
  cases error <;> rfl

end Identity

end TreeWalk
