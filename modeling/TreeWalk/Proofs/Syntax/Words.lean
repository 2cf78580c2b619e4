import TreeWalk.Proofs.Double.Numerals
import TreeWalk.Proofs.Syntax.Outline

/-!
# Words in the forms of trees

The words in the form of a tree are its names, its literals and what introduces its parts. Where
the tree is written in lexemes they are lexemes again, a number as it is listed, and but for strings
they hold nothing that ends a word. So the form is plain.
-/

namespace TreeWalk

section Words

variable {kind : Kind}

/-- No character of a word ends one. -/
theorem Form.not_endsWord_of_continuesWord {character : Char}
    (continues : Piece.continuesWord character) : ¬ endsWord character := by
  intro ends
  have one : character = ' ' ∨ character = '(' ∨ character = ')' := by
    simpa [endsWord, or_assoc] using ends
  rcases one with rfl | rfl | rfl <;> cases continues

/-- No digit ends a word. -/
theorem Form.not_endsWord_of_isDigit {character : Char} (digit : character.isDigit) :
    ¬ endsWord character :=
  not_endsWord_of_continuesWord
    (Piece.continuesWord_iff.2 (.inr (.inr (.inr (Piece.isDigit_iff.1 digit)))))

/-- A text that is made up as words are holds nothing that ends one. -/
theorem Piece.not_endsWord_of_word {head : Char} {tail : List Char} (starts : startsWord head)
    (continues : ∀ c ∈ tail, continuesWord c) : ∀ c ∈ head :: tail, ¬ Form.endsWord c := by
  have starting : continuesWord head :=
    continuesWord_iff.2 ((startsWord_iff.1 starts).imp_right (.imp_right .inl))
  exact List.forall_mem_cons.2 ⟨Form.not_endsWord_of_continuesWord starting,
    fun c inside => Form.not_endsWord_of_continuesWord (continues c inside)⟩

/-- Names, numbers and reserved words hold nothing that ends a word. -/
theorem Piece.Lexical.whole {text : List Char} (lexical : Lexical ⟨.token kind, text⟩)
    (markless : ∀ mark, kind ≠ .punctuator mark) (stringless : ∀ content, kind ≠ .string content) :
    ∀ c ∈ text, ¬ Form.endsWord c := by
  cases lexical with
  | mark mark => exact absurd rfl (markless mark)
  | string => exact absurd rfl (stringless _)
  | number numeral =>
      cases numeral with
      | whole _ allDigits => exact fun c inside => Form.not_endsWord_of_isDigit (allDigits c inside)
      | pointed _ allDigits behindPoint =>
          simp only [List.forall_mem_append, List.forall_mem_cons]
          exact ⟨fun c inside => Form.not_endsWord_of_isDigit (allDigits c inside), by decide,
            fun c inside => Form.not_endsWord_of_isDigit (behindPoint c inside)⟩
  | reserved word =>
      have nonempty : word.text.toList ≠ [] := (Lexical.reserved word).text_ne_nil
      obtain ⟨head, tail, text⟩ := List.exists_cons_of_ne_nil nonempty
      obtain ⟨starts, continues⟩ := word_of_reserved word text
      rw [text]
      exact not_endsWord_of_word starts continues
  | identifier starts continues => exact not_endsWord_of_word starts continues

/-- A word that is no mark is plain where it is spelled. -/
theorem Form.plain_word (spelled : Piece.Lexical ⟨.token kind, kind.prefixForm.toList⟩)
    (markless : ∀ mark, kind ≠ .punctuator mark) (stringless : ∀ content, kind ≠ .string content) :
    (Form.word kind).Plain :=
  .word spelled (spelled.whole markless stringless)

/-- A reserved word is plain. -/
theorem Form.plain_keyword (word : Keyword) : (Form.word (.keyword word)).Plain :=
  plain_word (.reserved word) (by simp) (by simp)

/-- A mark is plain unless it is a parenthesis. -/
theorem Form.plain_mark {mark : Punctuator} (apart : mark ≠ .leftParen ∧ mark ≠ .rightParen) :
    (Form.word (.punctuator mark)).Plain := by
  refine .word (.mark mark) ?_
  cases mark <;> simp_all [Punctuator.text, endsWord]

/-- The mark of a unary operator is plain. -/
theorem UnaryOperator.plain_mark (operator : UnaryOperator) :
    (Form.word (.punctuator operator.mark)).Plain :=
  Form.plain_mark (by cases operator <;> decide)

/-- The mark of a binary operator is plain. -/
theorem BinaryOperator.plain_mark (operator : BinaryOperator) :
    (Form.word (.punctuator operator.mark)).Plain :=
  Form.plain_mark (by cases operator <;> decide)

/-- A name is plain where it is spelled. -/
theorem Kind.Spelled.plain_name {name : Identifier} (spelled : name.token.kind.Spelled) :
    name.form.Plain :=
  Form.plain_word spelled (by simp) (by simp)

/-- What is made up as names are, and is not reserved, is plain. -/
theorem Form.plain_made {name : String} {head : Char} {tail : List Char}
    (text : name.toList = head :: tail) (starts : Piece.startsWord head)
    (continues : tail.all Piece.continuesWord) (free : Keyword.ofText? name = none) :
    (Form.word (.identifier name)).Plain := by
  refine plain_word ?_ (by simp) (by simp)
  have lexical := Piece.lexical_word starts (List.all_eq_true.1 continues)
  rw [← text, String.ofList_toList, Piece.wordKind, free] at lexical
  exact lexical

/-- The word in front of a group is plain. -/
theorem Form.plain_group : (Form.word (.identifier "group")).Plain :=
  @plain_made _ 'g' "roup".toList rfl (by decide) (by decide) (by decide)

/-- The word in front of a block is plain. -/
theorem Form.plain_block : (Form.word (.identifier "block")).Plain :=
  @plain_made _ 'b' "lock".toList rfl (by decide) (by decide) (by decide)

/-- The word for what is left out is plain. -/
theorem Form.plain_absent : absent.Plain :=
  @plain_made _ '_' [] rfl (by decide) (by decide) (by decide)

/-- A number in a source has no sign. -/
theorem Kind.Spelled.isNegative {value : Float} {lexeme : String}
    (spelled : (Kind.number value lexeme).Spelled) : Double.isNegative value = false := by
  have lexical : Piece.Lexical ⟨.token (.number value lexeme), lexeme.toList⟩ := spelled
  generalize lexeme.toList = text at lexical
  cases lexical with
  | number => exact Double.isNegative_ofCode (Double.ofDecimal_le _)

/-- A literal or a variable is plain where it is spelled, if it is no string and no number beyond
the finite ones. -/
theorem Kind.Spelled.plain_terminal (spelled : kind.Spelled) (terminal : kind.isTerminal)
    (stringless : ∀ content, kind ≠ .string content)
    (finite : ∀ value lexeme, kind = .number value lexeme → value.isFinite = true) :
    (Form.word kind.outline).Plain := by
  cases kind with
  | keyword word => exact Form.plain_keyword word
  | identifier name => exact @plain_name ⟨name, {}⟩ spelled
  | string content => exact absurd rfl (stringless content)
  | punctuator | trivia => cases terminal
  | number value lexeme =>
      obtain ⟨decimal, magnitude, text⟩ := Double.exists_literal (finite value lexeme rfl)
      have lexical := Piece.Lexical.number decimal.numeral_text
      rw [Double.signed, spelled.isNegative, if_neg Bool.false_ne_true] at text
      rw [Double.ofDecimalText_magnitude magnitude spelled.isNegative, ← text,
        String.ofList_toList] at lexical
      exact Form.plain_word lexical (by simp [outline]) (by simp [outline])

end Words

namespace Expr

/-- The terminals of an expression. -/
def terminals : Expr → List Token
  | .terminal token => [token]
  | .group inner _ => inner.terminals
  | .unary _ operand _ => operand.terminals
  | .binary left _ right _ => left.terminals ++ right.terminals
  | .logical left _ right _ => left.terminals ++ right.terminals
  | .assign _ value _ => value.terminals

variable {value : Expr} {tokens : List Token}

/-- The terminals of an expression are among the tokens that it is written as. -/
theorem Written.terminals_subset (written : value.Written tokens) : value.terminals ⊆ tokens := by
  induction written with
  | terminal => exact List.Subset.refl _
  | group _ _ inside => exact fun _ present => by simp [inside present]
  | unary _ behind | assign _ behind => exact fun _ present => by simp [behind present]
  | binary _ _ before behind | logical _ _ before behind =>
      intro _ present
      rcases List.mem_append.1 present with left | right
      · simp [before left]
      · simp [behind right]

/-- The terminals of a well-shaped expression are literals and variables. -/
theorem WellShaped.isTerminal (shaped : value.WellShaped) :
    ∀ token ∈ value.terminals, token.kind.isTerminal := by
  induction value with
  | terminal token => exact List.forall_mem_singleton.2 shaped
  | group _ _ inside => exact inside shaped
  | unary _ _ _ behind => exact behind shaped.1
  | binary _ _ _ _ before behind | logical _ _ _ _ before behind =>
      exact List.forall_mem_append.2 ⟨before shaped.1, behind shaped.2.1⟩
  | assign _ _ _ behind => exact behind shaped

/-- The form of an expression is plain if its terminals are, as its names are lexemes. -/
theorem Written.plain_form (written : value.Written tokens)
    (spelled : ∀ token ∈ tokens, token.kind.Spelled)
    (plain : ∀ token ∈ value.terminals, (Form.word token.kind.outline).Plain) :
    value.form.Plain := by
  induction written with
  | terminal => exact plain _ List.mem_cons_self
  | group _ _ inside =>
      have inner := inside (fun token present => spelled token (by simp [present])) plain
      exact .cons Form.plain_group (.cons inner .nil)
  | unary _ behind =>
      have operand := behind (fun token present => spelled token (by simp [present])) plain
      exact .cons (UnaryOperator.plain_mark _) (.cons operand .nil)
  | binary _ _ before behind =>
      obtain ⟨leftPlain, rightPlain⟩ := List.forall_mem_append.1 plain
      have left := before (fun token present => spelled token (by simp [present])) leftPlain
      have right := behind (fun token present => spelled token (by simp [present])) rightPlain
      exact .cons (BinaryOperator.plain_mark _) (.cons left (.cons right .nil))
  | logical _ _ before behind =>
      obtain ⟨leftPlain, rightPlain⟩ := List.forall_mem_append.1 plain
      have left := before (fun token present => spelled token (by simp [present])) leftPlain
      have right := behind (fun token present => spelled token (by simp [present])) rightPlain
      exact .cons (Form.plain_keyword _) (.cons left (.cons right .nil))
  | assign _ behind =>
      have assigned := behind (fun token present => spelled token (by simp [present])) plain
      have target := Kind.Spelled.plain_name (spelled _ List.mem_cons_self)
      exact .cons (Form.plain_mark (by decide)) (.cons target (.cons assigned .nil))

end Expr

/-- The names of a function: its own and those of its parameters. -/
def Function.ownNames (function : Function) : List Identifier :=
  function.name :: function.parameters

/-- The names that a node itself holds, with those of its methods. -/
def Node.ownNames : Node → List Identifier
  | .variableDeclaration name _ _ => [name]
  | .classDeclaration name superclass methods _ =>
      name :: (superclass.toList ++ methods.flatMap Function.ownNames)
  | .functionDeclaration function => function.ownNames
  | _ => []

section Names

variable {name : Identifier} {tokens : List Token}

/-- Listed names stand among the tokens of the list. -/
theorem Identifier.ListWritten.token_mem {names : List Identifier}
    (written : ListWritten names tokens) (present : name ∈ names) : name.token ∈ tokens := by
  induction written with
  | nil => cases present
  | single =>
      obtain rfl := List.mem_singleton.1 present
      exact List.mem_cons_self
  | cons _ _ inductionHypothesis =>
      rcases List.mem_cons.1 present with rfl | later
      · exact List.mem_cons_self
      · exact .tail _ (.tail _ (inductionHypothesis later))

/-- The names of a function stand among its tokens. -/
theorem Function.Written.token_mem {function : Function} (written : function.Written tokens)
    (present : name ∈ function.ownNames) : name.token ∈ tokens := by
  cases written with
  | mk _ _ _ _ listed =>
      rcases List.mem_cons.1 present with rfl | parameter
      · exact List.mem_cons_self
      · have inside := listed.token_mem parameter
        simp [inside]

/-- The names of methods stand among the tokens of the methods. -/
theorem Function.MethodsWritten.token_mem {methods : List Function} {method : Function}
    (written : MethodsWritten methods tokens) (present : method ∈ methods)
    (own : name ∈ method.ownNames) : name.token ∈ tokens := by
  induction methods generalizing tokens with
  | nil => cases present
  | cons first others inductionHypothesis =>
      cases written with
      | cons here _ behind =>
          cases present with
          | head => exact List.mem_append_left _ (here.token_mem own)
          | tail _ later => exact List.mem_append_right _ (inductionHypothesis behind later)

/-- The names of a node stand among the tokens that it is written as. -/
theorem Node.token_mem {node : Node} (among : Among Written tokens node)
    (present : name ∈ node.ownNames) : name.token ∈ tokens := by
  obtain ⟨own, written, subset⟩ := among
  apply subset
  cases written with
  | variableDeclaration =>
      obtain rfl := List.mem_singleton.1 present
      simp
  | classDeclaration _ _ above held =>
      rcases List.mem_cons.1 present with rfl | later
      · simp
      · rcases List.mem_append.1 later with parent | inside
        · cases above with
          | none => cases parent
          | some _ =>
              obtain rfl := List.mem_singleton.1 parent
              simp
        · obtain ⟨method, direct, own⟩ := List.mem_flatMap.1 inside
          have stands := held.token_mem direct own
          simp [stands]
  | functionDeclaration declared => exact .tail _ (declared.token_mem present)
  | expression | expressionStatement | print | block | conditional | alternative | whileLoop
  | forLoop | returned => cases present

end Names

/-- The form of a function is plain if its names are and the nodes in its body. -/
theorem Function.plain_form {function : Function}
    (names : ∀ name ∈ function.ownNames, name.form.Plain)
    (held : ∀ node ∈ function.body, node.form.Plain) : function.form.Plain := by
  obtain ⟨name, parameters, body, _⟩ := function
  obtain ⟨here, listed⟩ := List.forall_mem_cons.1 names
  rw [form, Node.forms_eq]
  refine .cons (Form.plain_keyword _) (.cons here (.cons (.list ?_) (.list ?_)))
  · exact List.forall_mem_map.2 listed
  · exact List.forall_mem_map.2 held

/-- The form of a clause is plain if the clause is left out or its form is plain. -/
theorem Expr.plain_optionForm {clause : Option Expr} (plain : ∀ value ∈ clause, value.form.Plain) :
    (optionForm clause).Plain := by
  cases clause with
  | none => exact Form.plain_absent
  | some value => exact plain value rfl

/-- The form of an expression that may be left out is plain if it is there and plain. -/
theorem Expr.plain_forms {clause : Option Expr} (plain : ∀ value ∈ clause, value.form.Plain) :
    (Form.list (clause.toList.map form)).Plain :=
  .list (List.forall_mem_map.2 fun value present => plain value (Option.mem_toList.1 present))

namespace Node

variable {tokens : List Token}

/-- The form of a node is plain if its terminals are at any depth, as its names are lexemes. -/
theorem plain_form (spelled : ∀ token ∈ tokens, token.kind.Spelled) (node : Node)
    (among : Among Written tokens node)
    (plain : ∀ part, Within children part node → ∀ clause ∈ part.clauses,
      ∀ token ∈ clause.terminals, (Form.word token.kind.outline).Plain) : node.form.Plain := by
  have held : ∀ child ∈ node.children, child.form.Plain := fun child direct =>
    plain_form spelled child (among_child among direct)
      fun part inside => plain part (.deeper direct inside)
  have clauses : ∀ clause ∈ node.clauses, clause.form.Plain := by
    intro clause direct
    obtain ⟨own, written, subset⟩ := among_clause among direct
    exact written.plain_form (fun token present => spelled token (subset present))
      (plain node .here clause direct)
  have names : ∀ name ∈ node.ownNames, name.form.Plain := fun name own =>
    (spelled _ (token_mem among own)).plain_name
  -- The words of each construct stand in front of forms that are plain by now.
  cases node with
  | expression value => exact clauses value List.mem_cons_self
  | expressionStatement value =>
      exact .cons (Form.plain_mark (by decide)) (.cons (clauses value List.mem_cons_self) .nil)
  | print value =>
      exact .cons (Form.plain_keyword _) (.cons (clauses value List.mem_cons_self) .nil)
  | variableDeclaration name initializer =>
      exact .cons (Form.plain_keyword _) (.cons (names name List.mem_cons_self)
        (Expr.plain_forms fun value present => clauses value (Option.mem_toList.2 present)))
  | block body =>
      rw [form, forms_eq]
      exact .cons Form.plain_block (.list (List.forall_mem_map.2 held))
  | conditional condition thenBranch elseBranch =>
      refine .cons (Form.plain_keyword _) (.cons (clauses condition List.mem_cons_self)
        (.cons (held thenBranch List.mem_cons_self) ?_))
      cases elseBranch with
      | none => exact .nil
      | some elseBranch => exact .cons (held elseBranch (.tail _ List.mem_cons_self)) .nil
  | whileLoop condition body =>
      exact .cons (Form.plain_keyword _) (.cons (clauses condition List.mem_cons_self)
        (.cons (held body List.mem_cons_self) .nil))
  | forLoop initializer condition increment body =>
      have first : (optionForm initializer).Plain := by
        cases initializer with
        | none => exact Form.plain_absent
        | some initializer => exact held initializer List.mem_cons_self
      have test := Expr.plain_optionForm fun value present =>
        clauses value (List.mem_append_left _ (Option.mem_toList.2 present))
      have step := Expr.plain_optionForm fun value present =>
        clauses value (List.mem_append_right _ (Option.mem_toList.2 present))
      have last := held body (List.mem_append_right _ List.mem_cons_self)
      exact .cons (Form.plain_keyword _) (.cons first (.cons test (.cons step (.cons last .nil))))
  | returned value =>
      exact .cons (Form.plain_keyword _)
        (Expr.plain_forms fun value present => clauses value (Option.mem_toList.2 present))
  | classDeclaration name superclass methods =>
      obtain ⟨here, others⟩ := List.forall_mem_cons.1 names
      obtain ⟨parents, inside⟩ := List.forall_mem_append.1 others
      have listed : (Form.list (Function.forms methods)).Plain := by
        rw [Function.forms_eq]
        exact .list (List.forall_mem_map.2 fun method present => Function.plain_form
          (fun name own => inside name (List.mem_flatMap.2 ⟨method, present, own⟩))
          fun node within => held node (List.mem_flatMap.2 ⟨method, present, within⟩))
      refine .cons (Form.plain_keyword _) (.cons here ?_)
      cases superclass with
      | none => exact listed
      | some parent =>
          exact .cons (Form.plain_mark (by decide))
            (.cons (parents parent List.mem_cons_self) listed)
  | functionDeclaration function => exact Function.plain_form names held
termination_by sizeOf node
decreasing_by exact sizeOf_lt_of_child direct

end Node

end TreeWalk
