import TreeWalk.Proofs.Syntax.Parts
import TreeWalk.Proofs.Syntax.Prefix

/-!
# Outlines

What is left of a tree without the places of its tokens and without the ways in which its numbers
are written. Trees of one form have one outline: the words in front and the numbers of parts tell
the kinds of trees apart, and only a variable `_` is not told from an absent clause of a `for`.
-/

namespace TreeWalk

/-- The token without its place. -/
def Token.outline (token : Token) : Token where
  kind := token.kind.outline
  span := {}

/-- The name without its place. -/
def Identifier.outline (name : Identifier) : Identifier where
  name := name.name
  span := {}

/-- The expression without places. -/
def Expr.outline : Expr → Expr
  | .terminal token => .terminal token.outline
  | .group inner _ => .group inner.outline {}
  | .unary operator operand _ => .unary operator operand.outline {}
  | .binary left operator right _ => .binary left.outline operator right.outline {}
  | .logical left operator right _ => .logical left.outline operator right.outline {}
  | .assign target value _ => .assign target.outline value.outline {}

mutual

/-- The function without places. -/
def Function.outline : Function → Function
  | .mk name parameters body _ =>
      .mk name.outline (parameters.map Identifier.outline) (Node.outlines body) {}

/-- The functions without places. -/
def Function.outlines : List Function → List Function
  | [] => []
  | function :: functions => function.outline :: Function.outlines functions

/-- The node without places. -/
def Node.outline : Node → Node
  | .expression value => .expression value.outline
  | .expressionStatement value _ => .expressionStatement value.outline {}
  | .print value _ => .print value.outline {}
  | .variableDeclaration name initializer _ =>
      .variableDeclaration name.outline (initializer.map Expr.outline) {}
  | .block body _ => .block (Node.outlines body) {}
  | .conditional condition thenBranch elseBranch _ =>
      .conditional condition.outline thenBranch.outline (Node.optionOutline elseBranch) {}
  | .whileLoop condition body _ => .whileLoop condition.outline body.outline {}
  | .forLoop initializer condition increment body _ =>
      .forLoop (Node.optionOutline initializer) (condition.map Expr.outline)
        (increment.map Expr.outline) body.outline {}
  | .returned value _ => .returned (value.map Expr.outline) {}
  | .classDeclaration name superclass methods _ =>
      .classDeclaration name.outline (superclass.map Identifier.outline)
        (Function.outlines methods) {}
  | .functionDeclaration function => .functionDeclaration function.outline

/-- The nodes without places. -/
def Node.outlines : List Node → List Node
  | [] => []
  | node :: nodes => node.outline :: Node.outlines nodes

/-- The node without places, if there is one. -/
def Node.optionOutline : Option Node → Option Node
  | none => none
  | some node => some node.outline

end

/-- A unary operator is known by its mark. -/
@[simp] theorem UnaryOperator.mark_inj {operator other : UnaryOperator} :
    operator.mark = other.mark ↔ operator = other := by
  cases operator <;> cases other <;> decide

/-- A binary operator is known by its mark. -/
@[simp] theorem BinaryOperator.mark_inj {operator other : BinaryOperator} :
    operator.mark = other.mark ↔ operator = other := by
  constructor
  · intro same
    have read := ofMark?_mark operator
    rw [same, ofMark?_mark] at read
    exact (Option.some.inj read).symm
  · rintro rfl
    rfl

/-- The mark of an assignment is that of no binary operator. -/
@[simp] theorem BinaryOperator.mark_ne_equal (operator : BinaryOperator) :
    operator.mark ≠ .equal := by
  cases operator <;> decide

/-- A logical operator is known by its word. -/
@[simp] theorem LogicalOperator.word_inj {operator other : LogicalOperator} :
    operator.word = other.word ↔ operator = other := by
  cases operator <;> cases other <;> decide

/-- Names of one form differ in their places at most. -/
@[simp] theorem Identifier.form_inj {name other : Identifier} :
    name.form = other.form ↔ name.outline = other.outline := by
  simp [form, outline]

/-- If the elements of two lists that agree in one way agree in another, then so do the lists. -/
theorem map_eq_map_of_forall {α β γ : Type} {first second : List α} {f : α → β} {g : α → γ}
    (each : ∀ a ∈ first, ∀ b ∈ second, f a = f b → g a = g b)
    (same : first.map f = second.map f) : first.map g = second.map g := by
  induction first generalizing second with
  | nil =>
      obtain rfl := List.map_eq_nil_iff.1 same.symm
      rfl
  | cons a others inductionHypothesis =>
      cases second with
      | nil => cases same
      | cons b rest =>
          obtain ⟨heads, tails⟩ := List.cons.inj same
          have later := inductionHypothesis
            (fun a inside b within => each a (.tail _ inside) b (.tail _ within)) tails
          rw [List.map_cons, List.map_cons, each a (.head _) b (.head _) heads, later]

namespace Expr

/-- Expressions of one form have one outline. -/
theorem outline_eq_of_form_eq {value other : Expr} (same : value.form = other.form) :
    value.outline = other.outline := by
  induction value generalizing other with
  | terminal token =>
      cases other with
      | terminal otherToken =>
          have kinds : token.kind.outline = otherToken.kind.outline := by simpa [form] using same
          rw [outline, outline, Token.outline, Token.outline, kinds]
      | _ => simp [form] at same
  | group inner _ inside =>
      cases other with
      | group otherInner =>
          have inners : inner.form = otherInner.form := by simpa [form] using same
          rw [outline, outline, inside inners]
      | _ => simp [form] at same
  | unary operator operand _ behind =>
      cases other with
      | unary otherOperator otherOperand =>
          obtain ⟨rfl, operands⟩ : operator = otherOperator ∧ operand.form = otherOperand.form := by
            simpa [form] using same
          rw [outline, outline, behind operands]
      | _ => simp [form] at same
  | binary left operator right _ before behind =>
      cases other with
      | binary otherLeft otherOperator otherRight =>
          obtain ⟨rfl, lefts, rights⟩ : operator = otherOperator ∧ left.form = otherLeft.form ∧
              right.form = otherRight.form := by
            simpa [form] using same
          rw [outline, outline, before lefts, behind rights]
      | _ => simp [form] at same
  | logical left operator right _ before behind =>
      cases other with
      | logical otherLeft otherOperator otherRight =>
          obtain ⟨rfl, lefts, rights⟩ : operator = otherOperator ∧ left.form = otherLeft.form ∧
              right.form = otherRight.form := by
            simpa [form] using same
          rw [outline, outline, before lefts, behind rights]
      | _ => simp [form] at same
  | assign target value _ behind =>
      cases other with
      | assign otherTarget otherValue =>
          obtain ⟨targets, values⟩ : target.outline = otherTarget.outline ∧
              value.form = otherValue.form := by
            simpa [form] using same
          rw [outline, outline, targets, behind values]
      | binary _ operator => simp [form, operator.mark_ne_equal.symm] at same
      | _ => simp [form] at same

/-- Expressions that may be left out have one outline if they have one form or none. -/
theorem map_outline_eq_of_forms {value other : Option Expr}
    (same : value.toList.map form = other.toList.map form) :
    value.map outline = other.map outline := by
  cases value <;> cases other
  · rfl
  · cases same
  · cases same
  · exact congrArg some (outline_eq_of_form_eq (List.cons.inj same).1)

/-- Clauses of one form have one outline, unless one of them has the form of an absent one. -/
theorem map_outline_eq_of_optionForm {clause other : Option Expr}
    (present : ∀ value ∈ clause, value.form ≠ .absent)
    (otherPresent : ∀ value ∈ other, value.form ≠ .absent)
    (same : optionForm clause = optionForm other) : clause.map outline = other.map outline := by
  cases clause with
  | none =>
      cases other with
      | none => rfl
      | some value => exact absurd same.symm (otherPresent value rfl)
  | some value =>
      cases other with
      | none => exact absurd same (present value rfl)
      | some otherValue => exact congrArg some (outline_eq_of_form_eq same)

end Expr

/-- The forms of nodes are those of each of them. -/
theorem Node.forms_eq (nodes : List Node) : forms nodes = nodes.map form := by
  induction nodes with
  | nil => rfl
  | cons node nodes inductionHypothesis => rw [forms, inductionHypothesis, List.map_cons]

/-- The outlines of nodes are those of each of them. -/
theorem Node.outlines_eq (nodes : List Node) : outlines nodes = nodes.map outline := by
  induction nodes with
  | nil => rfl
  | cons node nodes inductionHypothesis => rw [outlines, inductionHypothesis, List.map_cons]

namespace Function

/-- The forms of functions are those of each of them. -/
theorem forms_eq (functions : List Function) : forms functions = functions.map form := by
  induction functions with
  | nil => rfl
  | cons function functions inductionHypothesis => rw [forms, inductionHypothesis, List.map_cons]

/-- The outlines of functions are those of each of them. -/
theorem outlines_eq (functions : List Function) : outlines functions = functions.map outline := by
  induction functions with
  | nil => rfl
  | cons function functions inductionHypothesis =>
      rw [outlines, inductionHypothesis, List.map_cons]

/-- Functions of one form have one outline, if the nodes in their bodies do. -/
theorem outline_eq_of_form_eq {function other : Function}
    (held : ∀ node ∈ function.body, ∀ part ∈ other.body, node.form = part.form →
      node.outline = part.outline)
    (same : function.form = other.form) : function.outline = other.outline := by
  obtain ⟨name, parameters, body, _⟩ := function
  obtain ⟨otherName, otherParameters, otherBody, _⟩ := other
  obtain ⟨names, listed, bodies⟩ : name.outline = otherName.outline ∧
      parameters.map Identifier.form = otherParameters.map Identifier.form ∧
      body.map Node.form = otherBody.map Node.form := by
    simpa [form, Node.forms_eq] using same
  have namesListed : parameters.map Identifier.outline = otherParameters.map Identifier.outline :=
    map_eq_map_of_forall (fun _ _ _ _ => Identifier.form_inj.1) listed
  have bodiesHeld : body.map Node.outline = otherBody.map Node.outline :=
    map_eq_map_of_forall held bodies
  rw [outline, outline, names, namesListed, Node.outlines_eq, Node.outlines_eq, bodiesHeld]

/-- The form of a function is no word. -/
theorem form_ne_word (function : Function) (kind : Kind) : function.form ≠ .word kind := by
  cases function
  simp [form]

end Function

/-- A class has one superclass and one list of methods of a form. -/
theorem Identifier.superclass_methods_inj {superclass other : Option Identifier}
    {methods others : List Function}
    (same : superclassForms superclass ++ methods.map Function.form =
      superclassForms other ++ others.map Function.form) :
    superclass.map outline = other.map outline ∧
      methods.map Function.form = others.map Function.form := by
  cases superclass with
  | none =>
      cases other with
      | none => exact ⟨rfl, same⟩
      | some parent =>
          cases methods with
          | nil => cases same
          | cons method methods => exact absurd (List.cons.inj same).1 (method.form_ne_word _)
  | some superclass =>
      cases other with
      | none =>
          cases others with
          | nil => cases same
          | cons method others => exact absurd (List.cons.inj same).1.symm (method.form_ne_word _)
      | some parent =>
          obtain ⟨names, methods⟩ : superclass.outline = parent.outline ∧ _ := by
            simpa [superclassForms] using same
          exact ⟨congrArg some names, methods⟩

namespace Node

/-- The clauses of a `for` behind the first one. -/
def laterClauses : Node → List Expr
  | .forLoop _ condition increment _ _ => condition.toList ++ increment.toList
  | _ => []

/-- The node is a statement or a declaration, and none of its later clauses looks like an absent
one. -/
structure Clear (node : Node) : Prop where
  statement : ∀ value, node ≠ .expression value
  present : ∀ clause ∈ node.laterClauses, clause.form ≠ .absent

/-- The word in front of the form of a node that is no bare expression. -/
def heading? : Node → Option Kind
  | .expression _ => none
  | .expressionStatement _ _ => some (.punctuator .semicolon)
  | .print _ _ => some (.keyword .printWord)
  | .variableDeclaration _ _ _ => some (.keyword .varWord)
  | .block _ _ => some (.identifier "block")
  | .conditional _ _ _ _ => some (.keyword .ifWord)
  | .whileLoop _ _ _ => some (.keyword .whileWord)
  | .forLoop _ _ _ _ _ => some (.keyword .forWord)
  | .returned _ _ => some (.keyword .returnWord)
  | .classDeclaration _ _ _ _ => some (.keyword .classWord)
  | .functionDeclaration _ => some (.keyword .funWord)

variable {node other : Node}

/-- The form of a clear node is a list behind the word that introduces the node. -/
theorem Clear.exists_form (clear : node.Clear) :
    ∃ kind items, node.heading? = some kind ∧ node.form = .list (.word kind :: items) := by
  cases node with
  | expression value => exact absurd rfl (clear.statement value)
  | functionDeclaration function =>
      cases function
      exact ⟨_, _, rfl, rfl⟩
  | _ => exact ⟨_, _, rfl, rfl⟩

/-- Clear nodes of one form are introduced by the same word. -/
theorem Clear.heading?_eq (clear : node.Clear) (otherClear : other.Clear)
    (same : node.form = other.form) : node.heading? = other.heading? := by
  obtain ⟨kind, items, heading, form⟩ := clear.exists_form
  obtain ⟨otherKind, others, otherHeading, otherForm⟩ := otherClear.exists_form
  rw [form, otherForm] at same
  obtain ⟨rfl, -⟩ : kind = otherKind ∧ items = others := by simpa using same
  rw [heading, otherHeading]

/-- No clear node has the form of what is left out. -/
theorem Clear.form_ne_absent (clear : node.Clear) : node.form ≠ .absent := by
  obtain ⟨kind, items, _, form⟩ := clear.exists_form
  rw [form]
  exact fun same => by cases same

/-- Branches of one form have one outline, if they are there at all. -/
theorem optionOutline_eq_of_forms {branch otherBranch : Option Node}
    (held : ∀ node ∈ branch, ∀ part ∈ otherBranch, node.form = part.form →
      node.outline = part.outline)
    (same : branchForms branch = branchForms otherBranch) :
    optionOutline branch = optionOutline otherBranch := by
  cases branch <;> cases otherBranch
  · rfl
  · cases same
  · cases same
  · exact congrArg some (held _ rfl _ rfl (List.cons.inj same).1)

/-- First clauses of one form have one outline, if none of them has that of an absent one. -/
theorem optionOutline_eq_of_optionForm {initializer otherInitializer : Option Node}
    (held : ∀ node ∈ initializer, ∀ part ∈ otherInitializer, node.form = part.form →
      node.outline = part.outline)
    (present : ∀ node ∈ initializer, node.form ≠ .absent)
    (otherPresent : ∀ node ∈ otherInitializer, node.form ≠ .absent)
    (same : optionForm initializer = optionForm otherInitializer) :
    optionOutline initializer = optionOutline otherInitializer := by
  cases initializer with
  | none =>
      cases otherInitializer with
      | none => rfl
      | some node => exact absurd same.symm (otherPresent node rfl)
  | some node =>
      cases otherInitializer with
      | none => exact absurd same (present node rfl)
      | some part => exact congrArg some (held node rfl part rfl same)

/-- Nodes of one form have one outline, if they are clear at every depth. -/
theorem outline_eq_of_form_eq (node other : Node)
    (clear : ∀ part, Within children part node → part.Clear)
    (otherClear : ∀ part, Within children part other → part.Clear)
    (same : node.form = other.form) : node.outline = other.outline := by
  have held : ∀ child ∈ node.children, ∀ part ∈ other.children, child.form = part.form →
      child.outline = part.outline := fun child direct part otherDirect =>
    outline_eq_of_form_eq child part (fun _ inside => clear _ (.deeper direct inside))
      (fun _ inside => otherClear _ (.deeper otherDirect inside))
  -- The word in front leaves one constructor for the other node, whose parts then match one by one.
  have headings := (clear node .here).heading?_eq (otherClear other .here) same
  cases node with
  | expression value => exact absurd rfl ((clear _ .here).statement value)
  | expressionStatement value =>
      cases other with
      | expressionStatement otherValue =>
          have values : value.form = otherValue.form := by simpa [form] using same
          rw [outline, outline, Expr.outline_eq_of_form_eq values]
      | _ => cases headings
  | print value =>
      cases other with
      | print otherValue =>
          have values : value.form = otherValue.form := by simpa [form] using same
          rw [outline, outline, Expr.outline_eq_of_form_eq values]
      | _ => cases headings
  | variableDeclaration name initializer =>
      cases other with
      | variableDeclaration otherName otherInitializer =>
          obtain ⟨names, initials⟩ : name.outline = otherName.outline ∧
              initializer.toList.map Expr.form = otherInitializer.toList.map Expr.form := by
            simpa [form] using same
          rw [outline, outline, names, Expr.map_outline_eq_of_forms initials]
      | _ => cases headings
  | block body =>
      cases other with
      | block otherBody =>
          have bodies : body.map form = otherBody.map form := by simpa [form, forms_eq] using same
          have bodiesHeld : body.map outline = otherBody.map outline :=
            map_eq_map_of_forall held bodies
          rw [outline, outline, outlines_eq, outlines_eq, bodiesHeld]
      | _ => cases headings
  | conditional condition thenBranch elseBranch =>
      cases other with
      | conditional otherCondition otherThen otherElse =>
          obtain ⟨conditions, thens, elses⟩ : condition.form = otherCondition.form ∧
              thenBranch.form = otherThen.form ∧
              branchForms elseBranch = branchForms otherElse := by
            simpa [form] using same
          have branches := held thenBranch (.head _) otherThen (.head _) thens
          have others := optionOutline_eq_of_forms (fun node present part otherPresent =>
            held node (.tail _ (Option.mem_toList.2 present)) part
              (.tail _ (Option.mem_toList.2 otherPresent))) elses
          rw [outline, outline, Expr.outline_eq_of_form_eq conditions, branches, others]
      | _ => cases headings
  | whileLoop condition body =>
      cases other with
      | whileLoop otherCondition otherBody =>
          obtain ⟨conditions, bodies⟩ : condition.form = otherCondition.form ∧
              body.form = otherBody.form := by
            simpa [form] using same
          rw [outline, outline, Expr.outline_eq_of_form_eq conditions,
            held body (.head _) otherBody (.head _) bodies]
      | _ => cases headings
  | forLoop initializer condition increment body =>
      cases other with
      | forLoop otherInitializer otherCondition otherIncrement otherBody =>
          obtain ⟨initials, conditions, increments, bodies⟩ :
              optionForm initializer = optionForm otherInitializer ∧
              Expr.optionForm condition = Expr.optionForm otherCondition ∧
              Expr.optionForm increment = Expr.optionForm otherIncrement ∧
              body.form = otherBody.form := by
            simpa [form] using same
          have first {initializer : Option Node} {node body : Node}
              (present : node ∈ initializer) : node ∈ initializer.toList ++ [body] :=
            List.mem_append_left _ (Option.mem_toList.2 present)
          have firsts := optionOutline_eq_of_optionForm
            (fun node present part otherPresent =>
              held node (first present) part (first otherPresent))
            (fun node present => (clear node (.deeper (first present) .here)).form_ne_absent)
            (fun node present => (otherClear node (.deeper (first present) .here)).form_ne_absent)
            initials
          obtain ⟨asked, advanced⟩ := List.forall_mem_append.1 (clear _ .here).present
          obtain ⟨otherAsked, otherAdvanced⟩ :=
            List.forall_mem_append.1 (otherClear _ .here).present
          have tests : condition.map Expr.outline = otherCondition.map Expr.outline :=
            Expr.map_outline_eq_of_optionForm (by simpa using asked) (by simpa using otherAsked)
              conditions
          have steps : increment.map Expr.outline = otherIncrement.map Expr.outline :=
            Expr.map_outline_eq_of_optionForm (by simpa using advanced)
              (by simpa using otherAdvanced) increments
          have last {initializer : Option Node} {body : Node} :
              body ∈ initializer.toList ++ [body] :=
            List.mem_append_right _ List.mem_cons_self
          rw [outline, outline, firsts, tests, steps, held body last otherBody last bodies]
      | _ => cases headings
  | returned value =>
      cases other with
      | returned otherValue =>
          have values : value.toList.map Expr.form = otherValue.toList.map Expr.form := by
            simpa [form] using same
          rw [outline, outline, Expr.map_outline_eq_of_forms values]
      | _ => cases headings
  | classDeclaration name superclass methods =>
      cases other with
      | classDeclaration otherName otherSuperclass otherMethods =>
          obtain ⟨names, behind⟩ : name.outline = otherName.outline ∧
              Identifier.superclassForms superclass ++ methods.map Function.form =
                Identifier.superclassForms otherSuperclass ++ otherMethods.map Function.form := by
            simpa [form, Function.forms_eq] using same
          obtain ⟨parents, listed⟩ := Identifier.superclass_methods_inj behind
          have methodsHeld : methods.map Function.outline = otherMethods.map Function.outline :=
            map_eq_map_of_forall (fun method present other otherPresent =>
              Function.outline_eq_of_form_eq fun node inside part otherInside =>
                held node (List.mem_flatMap.2 ⟨method, present, inside⟩) part
                  (List.mem_flatMap.2 ⟨other, otherPresent, otherInside⟩)) listed
          rw [outline, outline, names, parents, Function.outlines_eq, Function.outlines_eq,
            methodsHeld]
      | _ => cases headings
  | functionDeclaration function =>
      cases other with
      | functionDeclaration otherFunction =>
          rw [outline, outline, Function.outline_eq_of_form_eq held same]
      | _ => cases headings
termination_by sizeOf node
decreasing_by exact sizeOf_lt_of_child direct

end Node

end TreeWalk
