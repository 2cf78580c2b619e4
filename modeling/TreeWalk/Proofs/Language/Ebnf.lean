import TreeWalk.Proofs.Grammar.Follow

/-!
# Grammars in extended Backus-Naur form

The documented grammar as data. `Ebnf` is the notation, `Dialect.production` the table of
productions and `Derives` the token sequences that an expression of the notation derives.
A grammar says nothing of trees, so each expression only denotes a language.
-/

namespace TreeWalk

/-- The nonterminals of the grammar. Each tier of expressions is one. -/
inductive Symbol where
  | classDeclaration | functionDeclaration | function | variableDeclaration | declaration
  | statement | expressionStatement | print | conditional | whileLoop | forLoop | returned
  | block | expression
  | tier (tier : Tier)

/-- The notation of the grammar. -/
inductive Ebnf where
  | mark (punctuator : Punctuator)
  | word (keyword : Keyword)
  | identifier | number | string
  | symbol (nonterminal : Symbol)
  | sequence (first second : Ebnf)
  | choice (first second : Ebnf)
  | optional (inner : Ebnf)
  | many (inner : Ebnf)
  /-- What `inner` derives without the mark in front. -/
  | barring (punctuator : Punctuator) (inner : Ebnf)

instance : Append Ebnf := ⟨Ebnf.sequence⟩

instance : OrElse Ebnf := ⟨fun first second => .choice first (second ())⟩

/-- What an expression of the notation derives with the productions. -/
inductive Derives (production : Symbol → Ebnf) : Ebnf → List Token → Prop where
  | mark {mark span} : Derives production (.mark mark) [⟨.punctuator mark, span⟩]
  | word {word span} : Derives production (.word word) [⟨.keyword word, span⟩]
  | identifier {name span} : Derives production .identifier [⟨.identifier name, span⟩]
  | number {value text span} : Derives production .number [⟨.number value text, span⟩]
  | string {content span} : Derives production .string [⟨.string content, span⟩]
  | symbol {symbol tokens} (body : Derives production (production symbol) tokens) :
      Derives production (.symbol symbol) tokens
  | sequence {first second before behind} (front : Derives production first before)
      (back : Derives production second behind) :
      Derives production (.sequence first second) (before ++ behind)
  | left {first second tokens} (chosen : Derives production first tokens) :
      Derives production (.choice first second) tokens
  | right {first second tokens} (chosen : Derives production second tokens) :
      Derives production (.choice first second) tokens
  | absent {inner} : Derives production (.optional inner) []
  | present {inner tokens} (taken : Derives production inner tokens) :
      Derives production (.optional inner) tokens
  | done {inner} : Derives production (.many inner) []
  | again {inner before behind} (once : Derives production inner before)
      (others : Derives production (.many inner) behind) :
      Derives production (.many inner) (before ++ behind)
  | barring {mark inner tokens} (taken : Derives production inner tokens)
      (different : Grammar.peek tokens ≠ some (.punctuator mark)) :
      Derives production (.barring mark inner) tokens

/-- The two readings of the grammar. The documented one lets any statement follow a
condition; the other one bars what begins with a minus sign from that place. -/
inductive Dialect where
  | documented | barred

/-- What may follow the condition of an `if` or a `while`. -/
def Dialect.branch : Dialect → Ebnf
  | documented => .symbol .statement
  | barred => .barring .minus (.symbol .statement)

open Ebnf in
/-- The operators of a level. -/
def Level.operators : Level → Ebnf
  | .disjunction => word .orWord
  | .conjunction => word .andWord
  | .equality => mark .equalEqual <|> mark .bangEqual
  | .comparison => mark .less <|> mark .lessEqual <|> mark .greater <|> mark .greaterEqual
  | .term => mark .plus <|> mark .minus
  | .factor => mark .star <|> mark .slash

open Ebnf in
/-- The productions. The left side of an assignment is a bare identifier. -/
def Dialect.production (dialect : Dialect) : Symbol → Ebnf
  | .declaration =>
      symbol .classDeclaration <|> symbol .functionDeclaration <|>
        symbol .variableDeclaration <|> symbol .statement
  | .classDeclaration =>
      word .classWord ++ identifier ++ optional (mark .less ++ identifier) ++
        mark .leftBrace ++ many (symbol .function) ++ mark .rightBrace
  | .functionDeclaration => word .funWord ++ symbol .function
  | .function =>
      identifier ++ mark .leftParen ++
        optional (identifier ++ many (mark .comma ++ identifier)) ++
        mark .rightParen ++ symbol .block
  | .variableDeclaration =>
      word .varWord ++ identifier ++ optional (mark .equal ++ symbol .expression) ++
        mark .semicolon
  | .statement =>
      symbol .block <|> symbol .conditional <|> symbol .whileLoop <|> symbol .forLoop <|>
        symbol .returned <|> symbol .print <|> symbol .expressionStatement
  | .expressionStatement => symbol .expression ++ mark .semicolon
  | .print => word .printWord ++ symbol .expression ++ mark .semicolon
  | .conditional =>
      word .ifWord ++ symbol .expression ++ dialect.branch ++
        optional (word .elseWord ++ symbol .statement)
  | .whileLoop => word .whileWord ++ symbol .expression ++ dialect.branch
  | .forLoop =>
      word .forWord ++ mark .leftParen ++
        (symbol .variableDeclaration <|> symbol .expressionStatement <|> mark .semicolon) ++
        optional (symbol .expression) ++ mark .semicolon ++ optional (symbol .expression) ++
        mark .rightParen ++ symbol .statement
  | .returned => word .returnWord ++ optional (symbol .expression) ++ mark .semicolon
  | .block =>
      mark .leftBrace ++ (symbol .declaration ++ many (symbol .declaration)) ++ mark .rightBrace
  | .expression => symbol (.tier .assignment)
  | .tier .assignment =>
      (identifier ++ mark .equal ++ symbol (.tier .assignment)) <|>
        symbol (.tier (.infixed .disjunction))
  | .tier (.infixed level) =>
      symbol (.tier level.operand) ++ many (level.operators ++ symbol (.tier level.operand))
  | .tier .unary =>
      ((mark .bang <|> mark .minus) ++ symbol (.tier .unary)) <|> symbol (.tier .primary)
  | .tier .primary =>
      word .trueWord <|> word .falseWord <|> word .nilWord <|> number <|> string <|> identifier <|>
        (mark .leftParen ++ symbol .expression ++ mark .rightParen)

/-- Whole programs. -/
def Ebnf.program : Ebnf :=
  .many (.symbol .declaration)

/-- A token sequence is in the language or not. -/
abbrev Language := List Token → Prop

namespace Ebnf

/-- The language of an expression, given the languages of the nonterminals. -/
def denote (meaning : Symbol → Language) : Ebnf → Language
  | mark punctuator, tokens => ∃ span, tokens = [⟨.punctuator punctuator, span⟩]
  | word keyword, tokens => ∃ span, tokens = [⟨.keyword keyword, span⟩]
  | identifier, tokens => ∃ name span, tokens = [⟨.identifier name, span⟩]
  | number, tokens => ∃ value text span, tokens = [⟨.number value text, span⟩]
  | string, tokens => ∃ content span, tokens = [⟨.string content, span⟩]
  | symbol nonterminal, tokens => meaning nonterminal tokens
  | sequence first second, tokens =>
      ∃ before behind, tokens = before ++ behind ∧
        denote meaning first before ∧ denote meaning second behind
  | choice first second, tokens => denote meaning first tokens ∨ denote meaning second tokens
  | optional inner, tokens => tokens = [] ∨ denote meaning inner tokens
  | many inner, tokens =>
      ∃ parts : List (List Token), tokens = parts.flatten ∧
        ∀ part ∈ parts, denote meaning inner part
  | barring punctuator inner, tokens =>
      denote meaning inner tokens ∧ Grammar.peek tokens ≠ some (.punctuator punctuator)

section Lemmas

variable {meaning : Symbol → Language} {production : Symbol → Ebnf} {body first second : Ebnf}
  {tokens : List Token}

/-- A sequence stands for the tokens of its first part with those of its second part behind them. -/
@[simp] theorem denote_append :
    (first ++ second).denote meaning tokens ↔
      ∃ before behind, tokens = before ++ behind ∧
        first.denote meaning before ∧ second.denote meaning behind :=
  Iff.rfl

/-- An alternative stands for what one of its sides stands for. -/
@[simp] theorem denote_orElse :
    (first <|> second).denote meaning tokens ↔
      first.denote meaning tokens ∨ second.denote meaning tokens :=
  Iff.rfl

/-- Languages that are closed under the productions hold whatever is derived. -/
theorem denote_of_derives
    (closed : ∀ symbol tokens, (production symbol).denote meaning tokens → meaning symbol tokens)
    (derived : Derives production body tokens) : body.denote meaning tokens := by
  induction derived with
  | mark => exact ⟨_, rfl⟩
  | word => exact ⟨_, rfl⟩
  | identifier => exact ⟨_, _, rfl⟩
  | number => exact ⟨_, _, _, rfl⟩
  | string => exact ⟨_, _, rfl⟩
  | symbol _ inside => exact closed _ _ inside
  | sequence _ _ front back => exact ⟨_, _, rfl, front, back⟩
  | left _ chosen => exact .inl chosen
  | right _ chosen => exact .inr chosen
  | absent => exact .inl rfl
  | present _ taken => exact .inr taken
  | done => exact ⟨[], rfl, nofun⟩
  | @again _ before _ _ _ once others =>
      obtain ⟨parts, rfl, each⟩ := others
      exact ⟨before :: parts, rfl, List.forall_mem_cons.2 ⟨once, each⟩⟩
  | barring _ different taken => exact ⟨taken, different⟩

/-- What an expression denotes in the derived languages is derived. -/
theorem derives_of_denote
    (inside : body.denote (fun symbol => Derives production (.symbol symbol)) tokens) :
    Derives production body tokens := by
  induction body generalizing tokens with
  | mark =>
      obtain ⟨_, rfl⟩ := inside
      exact .mark
  | word =>
      obtain ⟨_, rfl⟩ := inside
      exact .word
  | identifier =>
      obtain ⟨_, _, rfl⟩ := inside
      exact .identifier
  | number =>
      obtain ⟨_, _, _, rfl⟩ := inside
      exact .number
  | string =>
      obtain ⟨_, _, rfl⟩ := inside
      exact .string
  | symbol => exact inside
  | sequence _ _ front back =>
      obtain ⟨_, _, rfl, before, behind⟩ := inside
      exact .sequence (front before) (back behind)
  | choice _ _ front back =>
      rcases inside with chosen | chosen
      · exact .left (front chosen)
      · exact .right (back chosen)
  | optional _ taken =>
      rcases inside with rfl | present
      · exact .absent
      · exact .present (taken present)
  | many _ once =>
      obtain ⟨parts, rfl, each⟩ := inside
      induction parts with
      | nil => exact .done
      | cons part parts others =>
          obtain ⟨here, behind⟩ := List.forall_mem_cons.1 each
          exact .again (once here) (others behind)
  | barring _ _ taken =>
      obtain ⟨present, different⟩ := inside
      exact .barring (taken present) different

/-- A nonterminal derives what its production denotes. -/
theorem derives_symbol {symbol : Symbol} :
    Derives production (.symbol symbol) tokens ↔
      (production symbol).denote (fun symbol => Derives production (.symbol symbol)) tokens := by
  constructor
  · intro derived
    cases derived with
    | symbol body =>
        exact denote_of_derives (fun _ _ inside => .symbol (derives_of_denote inside)) body
  · intro inside
    exact .symbol (derives_of_denote inside)

/-- The operators of a level, each as its own token. -/
theorem denote_operators {level : Level} :
    level.operators.denote meaning tokens ↔
      ∃ (operator : InfixOperator) (span : Span),
        operator.level = level ∧ tokens = [⟨operator.kind, span⟩] := by
  constructor
  · cases level with
    | disjunction =>
        rintro ⟨span, rfl⟩
        exact ⟨.logical .or, span, rfl, rfl⟩
    | conjunction =>
        rintro ⟨span, rfl⟩
        exact ⟨.logical .and, span, rfl, rfl⟩
    | equality =>
        rintro (⟨span, rfl⟩ | ⟨span, rfl⟩)
        · exact ⟨.binary .equal, span, rfl, rfl⟩
        · exact ⟨.binary .notEqual, span, rfl, rfl⟩
    | comparison =>
        rintro (⟨span, rfl⟩ | ⟨span, rfl⟩ | ⟨span, rfl⟩ | ⟨span, rfl⟩)
        · exact ⟨.binary .less, span, rfl, rfl⟩
        · exact ⟨.binary .lessEqual, span, rfl, rfl⟩
        · exact ⟨.binary .greater, span, rfl, rfl⟩
        · exact ⟨.binary .greaterEqual, span, rfl, rfl⟩
    | term =>
        rintro (⟨span, rfl⟩ | ⟨span, rfl⟩)
        · exact ⟨.binary .add, span, rfl, rfl⟩
        · exact ⟨.binary .sub, span, rfl, rfl⟩
    | factor =>
        rintro (⟨span, rfl⟩ | ⟨span, rfl⟩)
        · exact ⟨.binary .mul, span, rfl, rfl⟩
        · exact ⟨.binary .div, span, rfl, rfl⟩
  · rintro ⟨operator, span, rfl, rfl⟩
    rcases operator with operator | operator <;> cases operator <;>
      simp [InfixOperator.level, Level.operators, denote, InfixOperator.kind,
        BinaryOperator.mark, LogicalOperator.word]

end Lemmas

end Ebnf

end TreeWalk
