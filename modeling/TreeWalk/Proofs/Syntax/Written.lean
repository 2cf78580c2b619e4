import TreeWalk.Grammar.Descent

/-!
# Trees written as tokens

The token sequences that a tree is written as. Every span in a tree is the span of one
of its tokens: the operator, the equals sign, the opening parenthesis or brace, the
keyword or the name. The tokens that no span in a tree belongs to may stand anywhere.
-/

namespace TreeWalk

/-- The punctuator in front of an operand. -/
def UnaryOperator.mark : UnaryOperator → Punctuator
  | .negate => .minus
  | .not => .bang

/-- A name as a token. -/
def Identifier.token (name : Identifier) : Token where
  kind := .identifier name.name
  span := name.span

/-- The tokens of an expression. -/
inductive Expr.Written : Expr → List Token → Prop where
  | terminal {token : Token} : Expr.Written (.terminal token) [token]
  | group {inner tokens opening} (closing : Span) (inside : Expr.Written inner tokens) :
      Expr.Written (.group inner opening)
        (⟨.punctuator .leftParen, opening⟩ :: tokens ++ [⟨.punctuator .rightParen, closing⟩])
  | unary {operator : UnaryOperator} {operand tokens span}
      (behind : Expr.Written operand tokens) :
      Expr.Written (.unary operator operand span) (⟨.punctuator operator.mark, span⟩ :: tokens)
  | binary {left right leftTokens rightTokens span} {operator : BinaryOperator}
      (before : Expr.Written left leftTokens) (behind : Expr.Written right rightTokens) :
      Expr.Written (.binary left operator right span)
        (leftTokens ++ ⟨.punctuator operator.mark, span⟩ :: rightTokens)
  | logical {left right leftTokens rightTokens span} {operator : LogicalOperator}
      (before : Expr.Written left leftTokens) (behind : Expr.Written right rightTokens) :
      Expr.Written (.logical left operator right span)
        (leftTokens ++ ⟨.keyword operator.word, span⟩ :: rightTokens)
  | assign {target : Identifier} {value tokens span} (behind : Expr.Written value tokens) :
      Expr.Written (.assign target value span)
        (target.token :: ⟨.punctuator .equal, span⟩ :: tokens)

/-- The tokens of an expression that may be left out. -/
inductive Expr.OptionWritten : Option Expr → List Token → Prop where
  | none : OptionWritten none []
  | some {value tokens} (present : Expr.Written value tokens) : OptionWritten (some value) tokens

/-- The tokens of an initial value that may be left out with its equals sign. -/
inductive Expr.InitializerWritten : Option Expr → List Token → Prop where
  | none : InitializerWritten none []
  | some {value tokens} (span : Span) (present : Expr.Written value tokens) :
      InitializerWritten (some value) (⟨.punctuator .equal, span⟩ :: tokens)

/-- The tokens of names between commas. -/
inductive Identifier.ListWritten : List Identifier → List Token → Prop where
  | nil : ListWritten [] []
  | single {name : Identifier} : ListWritten [name] [name.token]
  | cons {name next : Identifier} {names tokens} (comma : Span)
      (others : ListWritten (next :: names) tokens) :
      ListWritten (name :: next :: names) (name.token :: ⟨.punctuator .comma, comma⟩ :: tokens)

/-- The tokens of a superclass that may be left out with its less sign. -/
inductive Identifier.SuperclassWritten : Option Identifier → List Token → Prop where
  | none : SuperclassWritten none []
  | some {name : Identifier} (span : Span) :
      SuperclassWritten (some name) [⟨.punctuator .less, span⟩, name.token]

mutual

/-- The tokens of a function without its keyword. -/
inductive Function.Written : Function → List Token → Prop where
  | mk {name : Identifier} {parameters body names inside span}
      (opening closing start finish : Span)
      (listed : Identifier.ListWritten parameters names) (held : Node.AllWritten body inside) :
      Function.Written (.mk name parameters body span)
        (name.token :: ⟨.punctuator .leftParen, opening⟩ :: names ++
          ⟨.punctuator .rightParen, closing⟩ :: ⟨.punctuator .leftBrace, start⟩ :: inside ++
          [⟨.punctuator .rightBrace, finish⟩])

/-- The tokens of methods in turn; each stands at its name. -/
inductive Function.MethodsWritten : List Function → List Token → Prop where
  | nil : Function.MethodsWritten [] []
  | cons {method others tokens rest} (first : Function.Written method tokens)
      (place : method.span = method.name.span) (behind : Function.MethodsWritten others rest) :
      Function.MethodsWritten (method :: others) (tokens ++ rest)

/-- The tokens of a node. -/
inductive Node.Written : Node → List Token → Prop where
  | expression {value tokens} (bare : Expr.Written value tokens) :
      Node.Written (.expression value) tokens
  | expressionStatement {value tokens} (semicolon : Span) (stated : Expr.Written value tokens) :
      Node.Written (.expressionStatement value value.span)
        (tokens ++ [⟨.punctuator .semicolon, semicolon⟩])
  | print {value tokens span} (semicolon : Span) (shown : Expr.Written value tokens) :
      Node.Written (.print value span)
        (⟨.keyword .printWord, span⟩ :: tokens ++ [⟨.punctuator .semicolon, semicolon⟩])
  | variableDeclaration {name : Identifier} {initializer tokens span} (semicolon : Span)
      (initial : Expr.InitializerWritten initializer tokens) :
      Node.Written (.variableDeclaration name initializer span)
        (⟨.keyword .varWord, span⟩ :: name.token :: tokens ++
          [⟨.punctuator .semicolon, semicolon⟩])
  | block {body tokens span} (finish : Span) (held : Node.AllWritten body tokens) :
      Node.Written (.block body span)
        (⟨.punctuator .leftBrace, span⟩ :: tokens ++ [⟨.punctuator .rightBrace, finish⟩])
  | conditional {condition thenBranch asked chosen span} (test : Expr.Written condition asked)
      (positive : Node.Written thenBranch chosen) :
      Node.Written (.conditional condition thenBranch none span)
        (⟨.keyword .ifWord, span⟩ :: asked ++ chosen)
  | alternative {condition thenBranch elseBranch asked chosen other span} (between : Span)
      (test : Expr.Written condition asked) (positive : Node.Written thenBranch chosen)
      (negative : Node.Written elseBranch other) :
      Node.Written (.conditional condition thenBranch (some elseBranch) span)
        (⟨.keyword .ifWord, span⟩ :: asked ++ chosen ++ ⟨.keyword .elseWord, between⟩ :: other)
  | whileLoop {condition body asked repeated span} (test : Expr.Written condition asked)
      (again : Node.Written body repeated) :
      Node.Written (.whileLoop condition body span)
        (⟨.keyword .whileWord, span⟩ :: asked ++ repeated)
  | forLoop {initializer condition increment body first asked step repeated span}
      (opening semicolon closing : Span) (initial : Node.ClauseWritten initializer first)
      (test : Expr.OptionWritten condition asked) (advance : Expr.OptionWritten increment step)
      (again : Node.Written body repeated) :
      Node.Written (.forLoop initializer condition increment body span)
        (⟨.keyword .forWord, span⟩ :: ⟨.punctuator .leftParen, opening⟩ :: first ++ asked ++
          ⟨.punctuator .semicolon, semicolon⟩ :: step ++
          ⟨.punctuator .rightParen, closing⟩ :: repeated)
  | returned {value tokens span} (semicolon : Span) (result : Expr.OptionWritten value tokens) :
      Node.Written (.returned value span)
        (⟨.keyword .returnWord, span⟩ :: tokens ++ [⟨.punctuator .semicolon, semicolon⟩])
  | classDeclaration {name : Identifier} {superclass methods parent tokens span}
      (start finish : Span) (above : Identifier.SuperclassWritten superclass parent)
      (held : Function.MethodsWritten methods tokens) :
      Node.Written (.classDeclaration name superclass methods span)
        (⟨.keyword .classWord, span⟩ :: name.token :: parent ++
          ⟨.punctuator .leftBrace, start⟩ :: tokens ++ [⟨.punctuator .rightBrace, finish⟩])
  | functionDeclaration {function tokens} (declared : Function.Written function tokens) :
      Node.Written (.functionDeclaration function)
        (⟨.keyword .funWord, function.span⟩ :: tokens)

/-- The tokens of the first clause of a `for`, with the semicolon behind it. -/
inductive Node.ClauseWritten : Option Node → List Token → Prop where
  | none (semicolon : Span) : Node.ClauseWritten none [⟨.punctuator .semicolon, semicolon⟩]
  | some {initializer tokens} (present : Node.Written initializer tokens) :
      Node.ClauseWritten (some initializer) tokens

/-- The tokens of nodes in turn. -/
inductive Node.AllWritten : List Node → List Token → Prop where
  | nil : Node.AllWritten [] []
  | cons {node nodes tokens rest} (first : Node.Written node tokens)
      (behind : Node.AllWritten nodes rest) :
      Node.AllWritten (node :: nodes) (tokens ++ rest)

end

/-- The nodes of two written texts in turn are written as both texts in turn. -/
theorem Node.AllWritten.append {nodes others : List Node} {tokens rest : List Token}
    (written : Node.AllWritten nodes tokens) (behind : Node.AllWritten others rest) :
    Node.AllWritten (nodes ++ others) (tokens ++ rest) := by
  induction nodes generalizing tokens with
  | nil =>
      cases written
      exact behind
  | cons node nodes inductionHypothesis =>
      cases written with
      | cons first later =>
          rw [List.append_assoc]
          exact .cons first (inductionHypothesis later)

end TreeWalk
