import TreeWalk.Proofs.Syntax.Forms
import TreeWalk.Proofs.Syntax.Written

/-!
# Forms of trees

The prefix form of a tree as the parenthesized form that it is: a word for each name and each
literal, and for any other tree a list of what introduces it and of its parts. The words `group`,
`block` and `_` are written as names are.
-/

namespace TreeWalk

/-- The kind with a number written as listings show it. -/
def Kind.outline : Kind → Kind
  | .number value _ => .number value (Double.literal value)
  | kind => kind

/-- A number is shown as it is listed, and so every kind is shown as its outline. -/
@[simp] theorem Kind.prefixForm_outline (kind : Kind) :
    kind.outline.prefixForm = kind.prefixForm := by
  cases kind <;> rfl

/-- The form of a name. -/
def Identifier.form (name : Identifier) : Form :=
  .word (.identifier name.name)

/-- A name is shown as it is. -/
@[simp] theorem Identifier.text_form (name : Identifier) : name.form.text = name.name.toList :=
  Form.text_word _

/-- The form of what is left out of a `for`. -/
def Form.absent : Form :=
  .word (.identifier "_")

/-- What is left out is shown as an underscore. -/
@[simp] theorem Form.text_absent : absent.text = ['_'] :=
  text_word _

namespace Expr

/-- The form of an expression. -/
def form : Expr → Form
  | terminal token => .word token.kind.outline
  | group inner _ => .list [.word (.identifier "group"), inner.form]
  | unary operator operand _ => .list [.word (.punctuator operator.mark), operand.form]
  | binary left operator right _ =>
      .list [.word (.punctuator operator.mark), left.form, right.form]
  | logical left operator right _ =>
      .list [.word (.keyword operator.word), left.form, right.form]
  | assign target value _ => .list [.word (.punctuator .equal), target.form, value.form]

/-- The form of a later clause of a `for`. -/
def optionForm : Option Expr → Form
  | none => .absent
  | some clause => clause.form

end Expr

/-- The forms of a superclass that may be left out. -/
def Identifier.superclassForms : Option Identifier → List Form
  | none => []
  | some superclass => [.word (.punctuator .less), superclass.form]

mutual

/-- The form of a function. -/
def Function.form : Function → Form
  | .mk name parameters body _ =>
      .list (.word (.keyword .funWord) :: name.form :: .list (parameters.map Identifier.form) ::
        Node.forms body)

/-- The forms of functions. -/
def Function.forms : List Function → List Form
  | [] => []
  | function :: functions => function.form :: Function.forms functions

/-- The form of a node. -/
def Node.form : Node → Form
  | .expression value => value.form
  | .expressionStatement value _ => .list [.word (.punctuator .semicolon), value.form]
  | .print value _ => .list [.word (.keyword .printWord), value.form]
  | .variableDeclaration name initializer _ =>
      .list (.word (.keyword .varWord) :: name.form :: initializer.toList.map Expr.form)
  | .block body _ => .list (.word (.identifier "block") :: Node.forms body)
  | .conditional condition thenBranch elseBranch _ =>
      .list (.word (.keyword .ifWord) :: condition.form :: thenBranch.form ::
        Node.branchForms elseBranch)
  | .whileLoop condition body _ =>
      .list [.word (.keyword .whileWord), condition.form, body.form]
  | .forLoop initializer condition increment body _ =>
      .list [.word (.keyword .forWord), Node.optionForm initializer, Expr.optionForm condition,
        Expr.optionForm increment, body.form]
  | .returned value _ => .list (.word (.keyword .returnWord) :: value.toList.map Expr.form)
  | .classDeclaration name superclass methods _ =>
      .list (.word (.keyword .classWord) :: name.form ::
        (Identifier.superclassForms superclass ++ Function.forms methods))
  | .functionDeclaration function => function.form

/-- The forms of nodes. -/
def Node.forms : List Node → List Form
  | [] => []
  | node :: nodes => node.form :: Node.forms nodes

/-- The forms of a branch that may be left out. -/
def Node.branchForms : Option Node → List Form
  | none => []
  | some node => [node.form]

/-- The form of the first clause of a `for`. -/
def Node.optionForm : Option Node → Form
  | none => .absent
  | some node => node.form

end

section Texts

@[simp] theorem Kind.prefixForm_punctuator (mark : Punctuator) :
    (Kind.punctuator mark).prefixForm = mark.text := rfl

@[simp] theorem Kind.prefixForm_keyword (word : Keyword) :
    (Kind.keyword word).prefixForm = word.text := rfl

@[simp] theorem Kind.prefixForm_identifier (name : String) :
    (Kind.identifier name).prefixForm = name := rfl

/-- A unary operator is shown as it is written. -/
theorem UnaryOperator.text_mark (operator : UnaryOperator) :
    operator.mark.text = operator.text := by
  cases operator <;> rfl

/-- The prefix form of an expression is the text of its form. -/
@[simp] theorem Expr.toList_prefixForm (value : Expr) :
    value.prefixForm.toList = value.form.text := by
  induction value with
  | terminal => simp [prefixForm, form]
  | group _ _ inside => simp [prefixForm, form, inside]
  | unary _ _ _ behind => simp [prefixForm, form, behind, UnaryOperator.text_mark]
  | binary _ _ _ _ before behind => simp [prefixForm, form, before, behind, BinaryOperator.text]
  | logical _ _ _ _ before behind => simp [prefixForm, form, before, behind, LogicalOperator.text]
  | assign _ _ _ behind => simp [prefixForm, form, behind, Punctuator.text]

/-- The prefix form of a clause is the text of its form. -/
@[simp] theorem Expr.toList_clauseForm (clause : Option Expr) :
    (clauseForm clause).toList = (optionForm clause).text := by
  cases clause with
  | none => simp [clauseForm, optionForm]
  | some clause => exact clause.toList_prefixForm

/-- The parameters of a function are a list of words. -/
theorem Identifier.text_parameters (parameters : List Identifier) :
    (Form.list (parameters.map form)).text =
      '(' :: ((" ".intercalate (parameters.map name)).toList ++ [')']) := by
  rw [Form.text_list, String.toList_intercalate, List.map_map, List.map_map]
  have words : Form.text ∘ form = String.toList ∘ name := funext text_form
  rw [words]
  rfl

mutual

/-- The prefix form of a function is the text of its form. -/
theorem Function.toList_prefixForm : (function : Function) →
    function.prefixForm.toList = function.form.text
  | .mk name parameters body _ => by
      simp [Function.prefixForm, Function.form, Identifier.text_parameters,
        ← Node.toList_prefixForms body, Keyword.text]

/-- The prefix forms of functions are the text of later items of a list. -/
theorem Function.toList_prefixForms : (functions : List Function) →
    (Function.prefixForms functions).toList ++ [')'] = Form.laterText (Function.forms functions)
  | [] => by simp [Function.prefixForms, Function.forms]
  | function :: functions => by
      simp [Function.prefixForms, Function.forms, function.toList_prefixForm,
        ← Function.toList_prefixForms functions]

/-- The prefix form of a node is the text of its form. -/
theorem Node.toList_prefixForm : (node : Node) → node.prefixForm.toList = node.form.text
  | .expression value => value.toList_prefixForm
  | .expressionStatement _ _ => by simp [Node.prefixForm, Node.form, Punctuator.text]
  | .print _ _ => by simp [Node.prefixForm, Node.form, Keyword.text]
  | .variableDeclaration _ none _ => by simp [Node.prefixForm, Node.form, Keyword.text]
  | .variableDeclaration _ (some _) _ => by simp [Node.prefixForm, Node.form, Keyword.text]
  | .block body _ => by simp [Node.prefixForm, Node.form, ← Node.toList_prefixForms body]
  | .conditional _ thenBranch none _ => by
      simp [Node.prefixForm, Node.form, Node.branchForms, thenBranch.toList_prefixForm,
        Keyword.text]
  | .conditional _ thenBranch (some elseBranch) _ => by
      simp [Node.prefixForm, Node.form, Node.branchForms, thenBranch.toList_prefixForm,
        elseBranch.toList_prefixForm, Keyword.text]
  | .whileLoop _ body _ => by
      simp [Node.prefixForm, Node.form, body.toList_prefixForm, Keyword.text]
  | .forLoop none _ _ body _ => by
      simp [Node.prefixForm, Node.form, Node.optionForm, body.toList_prefixForm, Keyword.text]
  | .forLoop (some initializer) _ _ body _ => by
      simp [Node.prefixForm, Node.form, Node.optionForm, initializer.toList_prefixForm,
        body.toList_prefixForm, Keyword.text]
  | .returned none _ => by simp [Node.prefixForm, Node.form, Keyword.text]
  | .returned (some _) _ => by simp [Node.prefixForm, Node.form, Keyword.text]
  | .classDeclaration _ none methods _ => by
      simp [Node.prefixForm, Node.form, Identifier.superclassForms, Keyword.text,
        ← Function.toList_prefixForms methods]
  | .classDeclaration _ (some _) methods _ => by
      simp [Node.prefixForm, Node.form, Identifier.superclassForms, Keyword.text, Punctuator.text,
        ← Function.toList_prefixForms methods]
  | .functionDeclaration function => function.toList_prefixForm

/-- The prefix forms of nodes are the text of later items of a list. -/
theorem Node.toList_prefixForms : (nodes : List Node) →
    (Node.prefixForms nodes).toList ++ [')'] = Form.laterText (Node.forms nodes)
  | [] => by simp [Node.prefixForms, Node.forms]
  | node :: nodes => by
      simp [Node.prefixForms, Node.forms, node.toList_prefixForm, ← Node.toList_prefixForms nodes]

end

end Texts

end TreeWalk
