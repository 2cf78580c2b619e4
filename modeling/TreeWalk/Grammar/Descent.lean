import TreeWalk.Grammar.Reading

/-!
# Reading by recursive descent

Operators fall into tiers by how tightly they bind. An expression of a tier is made of
operands of the next tighter one. Operators between two operands group to the left, the
assignment groups to the right, and an operator is recognised by the one token ahead.

The first token decides which form of a declaration or statement is read. Declarations
stand at the top of a program and in blocks; branches and loop bodies are statements. A
block holds at least one declaration, and conditions stand without parentheses.
-/

namespace TreeWalk

/-- The tiers of operators between two operands, the loosest first. -/
inductive Level where
  | disjunction | conjunction | equality | comparison | term | factor
deriving DecidableEq, Repr

/-- The tiers of expressions, the loosest first. -/
inductive Tier where
  | assignment
  | infixed (level : Level)
  | unary
  | primary
deriving DecidableEq, Repr

/-- The tier of the operands on a level. -/
def Level.operand : Level → Tier
  | .disjunction => .infixed .conjunction
  | .conjunction => .infixed .equality
  | .equality => .infixed .comparison
  | .comparison => .infixed .term
  | .term => .infixed .factor
  | .factor => .unary

/-- How many levels bind tighter. -/
def Level.looseness : Level → Nat
  | .disjunction => 5
  | .conjunction => 4
  | .equality => 3
  | .comparison => 2
  | .term => 1
  | .factor => 0

/-- How many tiers bind tighter. -/
def Tier.looseness : Tier → Nat
  | .assignment => 8
  | .infixed level => level.looseness + 2
  | .unary => 1
  | .primary => 0

/-- Operands bind tighter than the operators between them. -/
theorem Level.looseness_operand (level : Level) :
    level.operand.looseness = level.looseness + 1 := by
  cases level <;> rfl

/-- The loosest level is the fifth above the tightest. -/
theorem Level.looseness_le (level : Level) : level.looseness ≤ 5 := by
  cases level <;> decide

/-- The operators between two operands, whether or not both are evaluated. -/
inductive InfixOperator where
  | binary (operator : BinaryOperator)
  | logical (operator : LogicalOperator)
deriving DecidableEq, Repr

namespace InfixOperator

/-- The operator that a token of this kind stands for after an operand. -/
def ofKind? : Kind → Option InfixOperator
  | .punctuator mark => (BinaryOperator.ofMark? mark).map binary
  | .keyword .andWord => some (logical .and)
  | .keyword .orWord => some (logical .or)
  | _ => none

/-- The level on which the operator stands. -/
def level : InfixOperator → Level
  | binary .add => .term
  | binary .sub => .term
  | binary .mul => .factor
  | binary .div => .factor
  | binary .less => .comparison
  | binary .lessEqual => .comparison
  | binary .greater => .comparison
  | binary .greaterEqual => .comparison
  | binary .equal => .equality
  | binary .notEqual => .equality
  | logical .and => .conjunction
  | logical .or => .disjunction

/-- The expression that the operator makes of two operands. -/
def combine (operator : InfixOperator) (left right : Expr) (span : Span) : Expr :=
  match operator with
  | binary operator => .binary left operator right span
  | logical operator => .logical left operator right span

/-- The kind of the operator's token. -/
def kind : InfixOperator → Kind
  | binary operator => .punctuator operator.mark
  | logical operator => .keyword operator.word

/-- An operator is found again by the kind of its token. -/
theorem ofKind?_kind (operator : InfixOperator) : ofKind? operator.kind = some operator := by
  rcases operator with operator | operator <;> cases operator <;> rfl

/-- A token is an operator only as its own kind. -/
theorem kind_of_ofKind? {kind : Kind} {operator : InfixOperator}
    (found : ofKind? kind = some operator) : operator.kind = kind := by
  rcases kind with mark | word | _ | _ | _ | _
  case punctuator => cases mark <;> cases found <;> rfl
  case keyword => cases word <;> cases found <;> rfl
  all_goals cases found

end InfixOperator

/-- The operator that a token of this kind stands for before an operand. -/
def UnaryOperator.ofKind? : Kind → Option UnaryOperator
  | .punctuator .minus => some .negate
  | .punctuator .bang => some .not
  | _ => none

/-- The kinds that are expressions by themselves: literals and variables. -/
def Kind.isTerminal : Kind → Bool
  | .number _ _ => true
  | .string _ => true
  | .identifier _ => true
  | .keyword .trueWord => true
  | .keyword .falseWord => true
  | .keyword .nilWord => true
  | _ => false

/-- The variable that an expression is, if it is one. -/
def Expr.variable? : Expr → Option Identifier
  | .terminal ⟨.identifier name, span⟩ => some ⟨name, span⟩
  | _ => none

/-- What a program is a list of: bare expressions, or declarations and statements. -/
inductive Mode where
  | expression | statement
deriving DecidableEq, Repr, Inhabited

namespace Grammar

section Rules

variable (ending : Span)

/-- Reads one given punctuator. Any other token is missing it and stays unread. -/
def expect (mark : Punctuator) : (tokens : List Token) → Reading Token tokens.length
  | [] => .reject (.unexpectedEnd ending) []
  | token :: rest =>
      if token.kind = .punctuator mark then .accept token rest
      else .reject (.missingToken mark token) (token :: rest)

/-- Reads a name. Any other token is unexpected and is passed over. -/
def identifier : (tokens : List Token) → Reading Identifier (tokens.length - 1)
  | [] => .reject (.unexpectedEnd ending) []
  | ⟨.identifier name, span⟩ :: rest => .accept ⟨name, span⟩ rest
  | token :: rest => .reject (.unexpectedToken token) rest

mutual

/-- Reads an expression of a tier. An assignment to anything but a variable is refused
at its equals sign, after its value has been read. -/
def expressionOf (tier : Tier) (tokens : List Token) : Reading Expr (tokens.length - 1) :=
  match tier with
  | .assignment =>
      (expressionOf (.infixed .disjunction) tokens).andThen fun target rest _ =>
        match rest with
        | [] => .accept target []
        | token :: rest =>
            if token.kind = .punctuator .equal then
              (expressionOf .assignment rest).andThen fun value rest _ =>
                match target.variable? with
                | some name => .accept (.assign name value token.span) rest
                | none => .reject (.unexpectedToken token) rest
            else .accept target (token :: rest)
  | .infixed level =>
      (expressionOf level.operand tokens).andThen fun left rest _ =>
        (operationsOf level left rest).widen
  | .unary =>
      match tokens with
      | [] => expressionOf .primary []
      | token :: rest =>
          match UnaryOperator.ofKind? token.kind with
          | some operator =>
              (expressionOf .unary rest).map fun operand => .unary operator operand token.span
          | none => expressionOf .primary (token :: rest)
  | .primary =>
      match tokens with
      | [] => .reject (.unexpectedEnd ending) []
      | token :: rest =>
          if token.kind.isTerminal then .accept (.terminal token) rest
          else if token.kind = .punctuator .leftParen then
            (expressionOf .assignment rest).andThen fun inner rest _ =>
              (expect ending .rightParen rest).map fun _ => .group inner token.span
          else .reject (.unexpectedToken token) rest
termination_by tokens.length * 10 + tier.looseness
decreasing_by
  all_goals have : Level.disjunction.looseness = 5 := rfl
  all_goals (try rw [Level.looseness_operand])
  all_goals simp only [List.length_cons, Tier.looseness] at *
  all_goals omega

/-- Reads the operators of a level and their right operands, onto a left operand. -/
def operationsOf (level : Level) (left : Expr) (tokens : List Token) :
    Reading Expr tokens.length :=
  match tokens with
  | [] => .accept left []
  | token :: rest =>
      match InfixOperator.ofKind? token.kind with
      | some operator =>
          if operator.level = level then
            (expressionOf level.operand rest).andThen fun right rest _ =>
              (operationsOf level (operator.combine left right token.span) rest).widen
          else .accept left (token :: rest)
      | none => .accept left (token :: rest)
termination_by tokens.length * 10
decreasing_by
  all_goals have := level.looseness_le
  all_goals simp only [List.length_cons, Level.looseness_operand] at *
  all_goals omega

end

/-- Reads an expression of the loosest tier. -/
def expression (tokens : List Token) : Reading Expr (tokens.length - 1) :=
  expressionOf ending .assignment tokens

/-- Reads an expression unless the mark that ends its place stands there. -/
def optionalExpression (terminator : Punctuator) (tokens : List Token) :
    Reading (Option Expr) tokens.length :=
  match tokens with
  | [] => (expression ending []).map some
  | token :: rest =>
      if token.kind = .punctuator terminator then .accept none (token :: rest)
      else (expression ending (token :: rest)).map some

/-- Reads an expression and its semicolon. -/
def expressionStatement (tokens : List Token) : Reading Node (tokens.length - 1) :=
  (expression ending tokens).andThen fun value rest _ =>
    (expect ending .semicolon rest).map fun _ => .expressionStatement value value.span

/-- Reads an equals sign and the expression after it, if there is one. -/
def initializer (tokens : List Token) : Reading (Option Expr) tokens.length :=
  match tokens with
  | [] => .accept none []
  | token :: rest =>
      if token.kind = .punctuator .equal then (expression ending rest).map some
      else .accept none (token :: rest)

/-- Reads a variable declaration after its keyword. -/
def variableDeclaration (span : Span) (tokens : List Token) : Reading Node (tokens.length - 1) :=
  (identifier ending tokens).andThen fun name rest _ =>
    (initializer ending rest).andThen fun value rest _ =>
      (expect ending .semicolon rest).map fun _ =>
        .variableDeclaration name value span

/-- Reads a return statement after its keyword. -/
def returnStatement (span : Span) (tokens : List Token) : Reading Node tokens.length :=
  (optionalExpression ending .semicolon tokens).andThen fun value rest _ =>
    (expect ending .semicolon rest).map fun _ => .returned value span

/-- Reads a print statement after its keyword. -/
def printStatement (span : Span) (tokens : List Token) : Reading Node (tokens.length - 1) :=
  (expression ending tokens).andThen fun value rest _ =>
    (expect ending .semicolon rest).map fun _ => .print value span

/-- Reads the first clause of a `for` and its semicolon. -/
def forInitializer (tokens : List Token) : Reading (Option Node) tokens.length :=
  match tokens with
  | [] => (expressionStatement ending []).map some
  | token :: rest =>
      match token.kind with
      | .punctuator .semicolon => .accept none rest
      | .keyword .varWord => (variableDeclaration ending token.span rest).map some
      | _ => (expressionStatement ending (token :: rest)).map some

/-- Reads names between commas and the closing parenthesis after them. -/
def parameterNames (tokens : List Token) : Reading (List Identifier) (tokens.length - 1) :=
  (identifier ending tokens).andThen fun name rest _ =>
    match rest with
    | [] => .reject (.unexpectedEnd ending) []
    | token :: rest =>
        if token.kind = .punctuator .comma then
          (parameterNames rest).map fun names => name :: names
        else (expect ending .rightParen (token :: rest)).map fun _ => [name]
termination_by tokens.length
decreasing_by simp only [List.length_cons] at *; omega

/-- Reads a parenthesised list of names, which may be empty. -/
def parameters (tokens : List Token) : Reading (List Identifier) tokens.length :=
  (expect ending .leftParen tokens).andThen fun _ rest _ =>
    match rest with
    | [] => (parameterNames ending []).widen
    | token :: rest =>
        if token.kind = .punctuator .rightParen then .accept [] rest
        else (parameterNames ending (token :: rest)).widen

/-- Reads a less sign and the name of a superclass, if there is one. -/
def superclass (tokens : List Token) : Reading (Option Identifier) tokens.length :=
  match tokens with
  | [] => .accept none []
  | token :: rest =>
      if token.kind = .punctuator .less then (identifier ending rest).map some
      else .accept none (token :: rest)

mutual

/-- Reads a declaration or a statement. -/
def declaration (tokens : List Token) : Reading Node (tokens.length - 1) :=
  match tokens with
  | [] => statement []
  | token :: rest =>
      match token.kind with
      | .keyword .classWord => (classDeclaration token.span rest).widen
      | .keyword .funWord => (function token.span rest).map .functionDeclaration
      | .keyword .varWord => (variableDeclaration ending token.span rest).widen
      | _ => statement (token :: rest)
termination_by tokens.length * 10 + 1

/-- Reads a statement. -/
def statement (tokens : List Token) : Reading Node (tokens.length - 1) :=
  match tokens with
  | [] => expressionStatement ending []
  | token :: rest =>
      match token.kind with
      | .punctuator .leftBrace => (blockBody rest).map fun body => .block body token.span
      | .keyword .ifWord => (conditional token.span rest).widen
      | .keyword .whileWord => (whileLoop token.span rest).widen
      | .keyword .forWord => (forLoop token.span rest).widen
      | .keyword .returnWord => (returnStatement ending token.span rest).widen
      | .keyword .printWord => (printStatement ending token.span rest).widen
      | _ => expressionStatement ending (token :: rest)
termination_by tokens.length * 10

/-- Reads the declarations of a block after its opening brace, and its closing brace. -/
def blockBody (tokens : List Token) : Reading (List Node) (tokens.length - 1) :=
  (declaration tokens).andThen fun node rest _ =>
    (blockRest rest).map fun nodes => node :: nodes
termination_by tokens.length * 10 + 3

/-- Reads declarations up to a closing brace, and the brace. -/
def blockRest (tokens : List Token) : Reading (List Node) tokens.length :=
  match tokens with
  | [] => .reject (.unexpectedEnd ending) []
  | token :: rest =>
      if token.kind = .punctuator .rightBrace then .accept [] rest
      else
        (declaration (token :: rest)).andThen fun node rest _ =>
          (blockRest rest).map fun nodes => node :: nodes
termination_by tokens.length * 10 + 2
decreasing_by all_goals (simp only [List.length_cons] at *; omega)

/-- Reads a conditional after its keyword; an `else` belongs to the nearest `if`. -/
def conditional (span : Span) (tokens : List Token) : Reading Node (tokens.length - 1) :=
  (expression ending tokens).andThen fun condition rest _ =>
    (statement rest).andThen fun thenBranch rest _ =>
      match rest with
      | [] => .accept (.conditional condition thenBranch none span) []
      | token :: rest =>
          if token.kind = .keyword .elseWord then
            (statement rest).map fun elseBranch =>
              .conditional condition thenBranch (some elseBranch) span
          else .accept (.conditional condition thenBranch none span) (token :: rest)
termination_by tokens.length * 10 + 1
decreasing_by
  all_goals (try simp only [List.length_cons] at *)
  all_goals omega

/-- Reads a `while` loop after its keyword. -/
def whileLoop (span : Span) (tokens : List Token) : Reading Node (tokens.length - 1) :=
  (expression ending tokens).andThen fun condition rest _ =>
    (statement rest).map fun body => .whileLoop condition body span
termination_by tokens.length * 10 + 1

/-- Reads a `for` loop after its keyword. -/
def forLoop (span : Span) (tokens : List Token) : Reading Node tokens.length :=
  (expect ending .leftParen tokens).andThen fun _ rest _ =>
    (forInitializer ending rest).andThen fun first rest _ =>
      (optionalExpression ending .semicolon rest).andThen fun condition rest _ =>
        (expect ending .semicolon rest).andThen fun _ rest _ =>
          (optionalExpression ending .rightParen rest).andThen fun increment rest _ =>
            (expect ending .rightParen rest).andThen fun _ rest _ =>
              (statement rest).map fun body => .forLoop first condition increment body span
termination_by tokens.length * 10 + 1

/-- Reads a function after its keyword, or a method. -/
def function (span : Span) (tokens : List Token) : Reading Function (tokens.length - 1) :=
  (identifier ending tokens).andThen fun name rest _ =>
    (parameters ending rest).andThen fun names rest _ =>
      (expect ending .leftBrace rest).andThen fun _ rest _ =>
        (blockBody rest).map fun body => .mk name names body span
termination_by tokens.length * 10 + 4

/-- Reads methods up to a closing brace, and the brace. -/
def methods (tokens : List Token) : Reading (List Function) tokens.length :=
  match tokens with
  | [] => .reject (.unexpectedEnd ending) []
  | token :: rest =>
      if token.kind = .punctuator .rightBrace then .accept [] rest
      else
        (function token.span (token :: rest)).andThen fun method rest _ =>
          (methods rest).map fun others => method :: others
termination_by tokens.length * 10 + 5
decreasing_by all_goals (simp only [List.length_cons] at *; omega)

/-- Reads a class after its keyword. -/
def classDeclaration (span : Span) (tokens : List Token) : Reading Node (tokens.length - 1) :=
  (identifier ending tokens).andThen fun name rest _ =>
    (superclass ending rest).andThen fun parent rest _ =>
      (expect ending .leftBrace rest).andThen fun _ rest _ =>
        (methods rest).map fun functions => .classDeclaration name parent functions span
termination_by tokens.length * 10 + 6

end

end Rules

/-- Reads one node of a program. -/
def topLevel (mode : Mode) (ending : Span) (tokens : List Token) :
    Reading Node (tokens.length - 1) :=
  match mode with
  | .expression => (expression ending tokens).map Node.expression
  | .statement => declaration ending tokens

/-- The rules of the grammar that read on their own. -/
inductive Rule where
  | expression
  /-- An expression whose operators outside parentheses bind at least so tightly. -/
  | expressionOf (tier : Tier)
  | declaration
  | statement
  /-- The nodes of a block behind its opening brace. -/
  | blockBody
deriving DecidableEq, Repr

/-- What a rule makes of tokens. -/
inductive Phrase where
  | expression (value : Expr)
  | node (node : Node)
  | nodes (nodes : List Node)

namespace Rule

/-- The reading of a rule from the front of tokens. -/
def read (rule : Rule) (ending : Span) (tokens : List Token) :
    Reading Phrase (tokens.length - 1) :=
  match rule with
  | expression => (Grammar.expression ending tokens).map .expression
  | expressionOf tier => (Grammar.expressionOf ending tier tokens).map .expression
  | declaration => (Grammar.declaration ending tokens).map .node
  | statement => (Grammar.statement ending tokens).map .node
  | blockBody => (Grammar.blockBody ending tokens).map .nodes

end Rule

end Grammar

end TreeWalk
