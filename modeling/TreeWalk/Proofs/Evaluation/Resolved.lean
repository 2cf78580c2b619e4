import TreeWalk.Session

/-!
# Resolved trees

One pass over the text of a program replaces every name that is read or assigned by the
scope that holds it there, counted from the global one. A resolved tree is evaluated with
direct access to that scope and no search. The pass sees names only, never values.
-/

namespace TreeWalk

/-- The names that the scopes in force hold, the innermost scope first. -/
abbrev Names := List (List String)

namespace Names

/-- Opens a scope without names. -/
def push (names : Names) : Names :=
  [] :: names

/-- Adds a name to the innermost scope, to a first one where there is none. -/
def declare : Names → String → Names
  | [], name => [[name]]
  | scope :: outer, name => (name :: scope) :: outer

/-- The innermost scope that holds the name, counted from the global one. -/
def slot? : Names → String → Option Nat
  | [], _ => none
  | scope :: outer, name => if name ∈ scope then some outer.length else slot? outer name

end Names

namespace Scopes

/-- The value of a variable in one scope, counted from the global one. -/
def readAt : Scopes → Nat → String → Option Value
  | [], _, _ => none
  | scope :: outer, index, name =>
      if index = outer.length then scope[name]? else readAt outer index name

/-- Gives a value to a variable in one scope, counted from the global one. -/
def writeAt : Scopes → Nat → String → Value → Scopes
  | [], _, _, _ => []
  | scope :: outer, index, name, value =>
      if index = outer.length then scope.insert name value :: outer
      else scope :: writeAt outer index name value

end Scopes

/-- Expressions whose names are resolved. A name without a scope is unresolved. -/
inductive ResolvedExpr where
  | literal (kind : Kind) (span : Span)
  | read (slot : Option Nat) (name : Identifier)
  | group (inner : ResolvedExpr)
  | unary (operator : UnaryOperator) (operand : ResolvedExpr) (span : Span)
  | binary (left : ResolvedExpr) (operator : BinaryOperator) (right : ResolvedExpr) (span : Span)
  | logical (left : ResolvedExpr) (operator : LogicalOperator) (right : ResolvedExpr)
  | write (slot : Option Nat) (name : Identifier) (value : ResolvedExpr)

/-- Nodes whose names are resolved. Of what cannot be evaluated only its kind is left. -/
inductive ResolvedNode where
  | expression (value : ResolvedExpr)
  | print (value : ResolvedExpr)
  | declare (name : String) (initializer : Option ResolvedExpr)
  | block (body : List ResolvedNode)
  | conditional (condition : ResolvedExpr) (thenBranch : ResolvedNode)
      (elseBranch : Option ResolvedNode) (span : Span)
  | unsupported (construct : Construct) (span : Span)

/-- Resolves the names of an expression. -/
def Expr.resolve (names : Names) : Expr → ResolvedExpr
  | .terminal ⟨.identifier name, span⟩ => .read (names.slot? name) ⟨name, span⟩
  | .terminal ⟨kind, span⟩ => .literal kind span
  | .group inner _ => .group (inner.resolve names)
  | .unary operator operand span => .unary operator (operand.resolve names) span
  | .binary left operator right span =>
      .binary (left.resolve names) operator (right.resolve names) span
  | .logical left operator right _ => .logical (left.resolve names) operator (right.resolve names)
  | .assign target value _ => .write (names.slot? target.name) target (value.resolve names)

mutual

/-- Resolves a node, and says which names are in force behind it. A declared name is in
force behind its initial value, and both branches begin with the same names. -/
def Node.resolve (names : Names) : Node → ResolvedNode × Names
  | .expression value => (.expression (value.resolve names), names)
  | .expressionStatement value _ => (.expression (value.resolve names), names)
  | .print value _ => (.print (value.resolve names), names)
  | .variableDeclaration name initializer _ =>
      (.declare name.name (initializer.map (Expr.resolve names)), names.declare name.name)
  | .block body _ => (.block (Node.resolveAll names.push body).1, names)
  | .conditional condition thenBranch none span =>
      (.conditional (condition.resolve names) (thenBranch.resolve names).1 none span, names)
  | .conditional condition thenBranch (some elseBranch) span =>
      (.conditional (condition.resolve names) (thenBranch.resolve names).1
        (some (elseBranch.resolve names).1) span, names)
  | .whileLoop _ _ span => (.unsupported .whileStatement span, names)
  | .forLoop _ _ _ _ span => (.unsupported .forStatement span, names)
  | .returned _ span => (.unsupported .returnStatement span, names)
  | .classDeclaration _ _ _ span => (.unsupported .classDeclaration span, names)
  | .functionDeclaration function => (.unsupported .functionDeclaration function.span, names)

/-- Resolves nodes in turn. -/
def Node.resolveAll (names : Names) : List Node → List ResolvedNode × Names
  | [] => ([], names)
  | node :: nodes =>
      let here := node.resolve names
      let others := Node.resolveAll here.2 nodes
      (here.1 :: others.1, others.2)

end

/-- The name that a node declares, if it declares one. -/
def Node.declared? : Node → Option String
  | .variableDeclaration name _ _ => some name.name
  | _ => none

/-- Reads a variable of its scope. Only an unresolved name is undefined. -/
def Action.readAt (slot : Option Nat) (name : Identifier) : Action Value :=
  match slot with
  | some index => fun scopes => ⟨.ok ((scopes.readAt index name.name).getD .nil), scopes, []⟩
  | none => .ofExcept (.error (.undefinedVariable name.name name.span))

/-- Gives a value to a variable of its scope. Only an unresolved name is undefined. -/
def Action.writeAt (slot : Option Nat) (name : Identifier) (value : Value) : Action Unit :=
  match slot with
  | some index => fun scopes => ⟨.ok (), scopes.writeAt index name.name value, []⟩
  | none => .ofExcept (.error (.undefinedVariable name.name name.span))

/-- Evaluates an expression without searching for names. -/
def ResolvedExpr.eval : ResolvedExpr → Action Value
  | .literal kind span =>
      match Value.ofKind? kind with
      | some value => .done value
      | none => .ofExcept (.error (.notImplemented (.terminal kind) span))
  | .read slot name => .readAt slot name
  | .group inner => inner.eval
  | .unary operator operand span => do
      let value ← operand.eval
      .ofExcept (value.unary operator span)
  | .binary left operator right span => do
      let leftValue ← left.eval
      let rightValue ← right.eval
      .ofExcept (Value.binary operator leftValue rightValue span)
  | .logical left operator right => do
      let value ← left.eval
      if operator.decidedBy value then pure value else right.eval
  | .write slot name value => do
      let value ← value.eval
      Action.writeAt slot name value
      pure value

/-- The truth of a condition, which must be a boolean. -/
def ResolvedExpr.evalCondition (condition : ResolvedExpr) (span : Span) : Action Bool := do
  match ← condition.eval with
  | .boolean holds => pure holds
  | _ => .ofExcept (.error (.typeMismatch .condition .boolean span))

mutual

/-- Evaluates a node without searching for names. -/
def ResolvedNode.eval : ResolvedNode → Action (Option Value)
  | .expression value => do
      let value ← value.eval
      pure (some value)
  | .print value => do
      let value ← value.eval
      Action.print value.text
      pure none
  | .declare name none => do
      Action.define name .nil
      pure none
  | .declare name (some value) => do
      let value ← value.eval
      Action.define name value
      pure none
  | .block body => (ResolvedNode.evalSequence none body).enclosed
  | .conditional condition thenBranch none span => do
      if ← condition.evalCondition span then thenBranch.eval else pure none
  | .conditional condition thenBranch (some elseBranch) span => do
      if ← condition.evalCondition span then thenBranch.eval else elseBranch.eval
  | .unsupported construct span => .ofExcept (.error (.notImplemented construct span))

/-- Evaluates nodes in turn, as `Node.evalSequence` does. -/
def ResolvedNode.evalSequence (last : Option Value) : List ResolvedNode → Action (Option Value)
  | [] => pure last
  | node :: nodes => do
      let value ← node.eval
      ResolvedNode.evalSequence value nodes

end

/-- Runs resolved nodes in turn, up to the first error, as `Node.run` does. -/
def ResolvedNode.run (last : Option Value) : List ResolvedNode → Scopes → Run
  | [], scopes => ⟨last, none, scopes, []⟩
  | node :: nodes, scopes =>
      match node.eval scopes with
      | ⟨.ok value, middle, printed⟩ =>
          let rest := ResolvedNode.run value nodes middle
          { rest with printed := printed ++ rest.printed }
      | ⟨.error error, after, printed⟩ => ⟨last, some error, after, printed⟩

/-- Runs resolved nodes in a session, as `Session.execute` does. -/
def Session.executeResolved (session : Session) (nodes : List ResolvedNode) :
    Response × Session :=
  let run := ResolvedNode.run none nodes session.scopes
  ({ value := run.value
     errors := (run.error.map Error.runtime).toList
     printed := run.printed },
   { session with
     scopes := run.scopes
     printed := session.printed ++ run.printed })

end TreeWalk
