import TreeWalk.Grammar.Program
import TreeWalk.Proofs.Grammar.Success

/-!
# What readings take, and what their errors are about

A reading takes tokens from the front only. Whether it succeeds or fails, what it leaves is
a suffix of what it was given, so nothing behind the point where it stopped is skipped or
given twice. A failure is about that point: the token left there, the end, or the last token
taken. Only a refused assignment looks back, to its equals sign.
-/

namespace TreeWalk

/-- What a syntax error says of the tokens that a reading took and of those that it left. -/
inductive SyntaxError.Concerns (ending : Span) :
    SyntaxError → List Token → List Token → Prop where
  /-- The token in the place of the punctuator stays unread. -/
  | missing {expected : Punctuator} {found : Token} {taken rest : List Token}
      (other : found.kind ≠ .punctuator expected) :
      Concerns ending (.missingToken expected found) taken (found :: rest)
  /-- All tokens were taken. -/
  | ended {taken : List Token} : Concerns ending (.unexpectedEnd ending) taken []
  /-- The token was the last one taken. -/
  | unexpected {found : Token} {taken rest : List Token} (last : taken.getLast? = some found) :
      Concerns ending (.unexpectedToken found) taken rest
  /-- The token is an equals sign between a target that is no variable and a value. -/
  | refused {found : Token} {taken before left right rest : List Token} {target value : Expr}
      (placed : taken = before ++ left ++ found :: right)
      (equals : found.kind = .punctuator .equal)
      (assigned : (Grammar.expressionOf ending (.infixed .disjunction)
        (left ++ found :: right ++ rest)).Succeeds target (found :: right ++ rest))
      (noVariable : target.variable? = none)
      (read : (Grammar.expressionOf ending .assignment (right ++ rest)).Succeeds value rest) :
      Concerns ending (.unexpectedToken found) taken rest

/-- Tokens that were taken before do not change what an error is about. -/
theorem SyntaxError.Concerns.after {ending : Span} {error : SyntaxError}
    {taken rest : List Token} (concerns : error.Concerns ending taken rest)
    (front : List Token) : error.Concerns ending (front ++ taken) rest := by
  cases concerns with
  | missing other => exact .missing other
  | ended => exact .ended
  | unexpected last => exact .unexpected (by rw [List.getLast?_append, last, Option.some_or])
  | refused placed equals assigned noVariable read =>
      exact .refused (by rw [placed, ← List.append_assoc, ← List.append_assoc])
        equals assigned noVariable read

namespace Grammar

variable {ending : Span} {tokens rest : List Token}

namespace Reading

variable {α β : Type} {inner limit : Nat}

/-- The reading accounts for the tokens: it took some in front, left the others, and its
error, if it failed, is about where it stopped. -/
def Accounts (ending : Span) (tokens : List Token) (reading : Reading α limit) : Prop :=
  ∃ taken, tokens = taken ++ reading.rest ∧
    ∀ error, reading.outcome = .error error → error.Concerns ending taken reading.rest

section Lemmas

variable {value : α} {error : SyntaxError} {change : α → β} {reading : Reading α inner}
  {within : inner ≤ limit} {bounded : rest.length ≤ limit}
  {next : (value : α) → (rest : List Token) → rest.length ≤ inner → Reading β limit}

/-- A value accounts for the tokens that were taken in front of the rest. -/
theorem accounts_accept (taken : List Token) (whole : tokens = taken ++ rest) :
    (accept value rest bounded).Accounts ending tokens :=
  ⟨taken, whole, fun _ failure => by cases failure⟩

/-- An error accounts for the tokens if it is about the place where they were left. -/
theorem accounts_reject (taken : List Token) (whole : tokens = taken ++ rest)
    (concerns : error.Concerns ending taken rest) :
    (reject error rest bounded : Reading α limit).Accounts ending tokens :=
  ⟨taken, whole, fun _ failure => by cases failure; exact concerns⟩

namespace Accounts

/-- A reading accounts for the same tokens when its value is changed. -/
theorem map (accounts : reading.Accounts ending tokens) :
    (reading.map change within).Accounts ending tokens := by
  obtain ⟨taken, whole, about⟩ := accounts
  refine ⟨taken, whole, fun error failure => about error ?_⟩
  cases outcome : reading.outcome with
  | ok value => simp [outcome, Except.map] at failure
  | error other => simpa [outcome, Except.map] using failure

/-- A reading accounts for the same tokens when its bound is widened. -/
theorem widen (accounts : reading.Accounts ending tokens) :
    (reading.widen within).Accounts ending tokens :=
  accounts

/-- Tokens in front of those that were given were taken before. -/
theorem after (accounts : reading.Accounts ending tokens) (front : List Token) :
    reading.Accounts ending (front ++ tokens) := by
  obtain ⟨taken, whole, about⟩ := accounts
  exact ⟨front ++ taken, by rw [List.append_assoc, ← whole],
    fun error failure => (about error failure).after front⟩

/-- A token that was taken before the reading is accounted for with it. -/
theorem cons (accounts : reading.Accounts ending tokens) (token : Token) :
    reading.Accounts ending (token :: tokens) :=
  accounts.after [token]

/-- A reading that has to leave fewer tokens than it was given takes one or more. -/
theorem exists_taken (accounts : reading.Accounts ending tokens) (fewer : inner < tokens.length) :
    ∃ taken, taken ≠ [] ∧ tokens = taken ++ reading.rest := by
  obtain ⟨taken, whole, _⟩ := accounts
  refine ⟨taken, ?_, whole⟩
  rintro rfl
  rw [List.nil_append] at whole
  have bounded := reading.bounded
  rw [← whole] at bounded
  omega

/-- A sequence accounts for all tokens up to its end if its second part does so in view of
what its first part took. -/
theorem andThen_of_taken {front all : List Token} (start : reading.Accounts ending tokens)
    (placed : all = front ++ tokens)
    (behind : ∀ value taken rest bounded, reading.Succeeds value rest →
      tokens = taken ++ rest → (next value rest bounded).Accounts ending all) :
    (reading.andThen next within).Accounts ending all := by
  obtain ⟨taken, whole, about⟩ := start
  cases outcome : reading.outcome with
  | ok value =>
      rw [andThen_of_ok value reading within next outcome]
      exact behind value taken _ reading.bounded ⟨outcome, rfl⟩ whole
  | error error =>
      rw [andThen_of_error error reading within next outcome]
      refine accounts_reject (front ++ taken) ?_ ((about error outcome).after front)
      rw [placed, List.append_assoc, ← whole]

/-- A sequence accounts for its tokens if each part does for what it was given. -/
theorem andThen (start : reading.Accounts ending tokens)
    (behind : ∀ value rest bounded, (next value rest bounded).Accounts ending rest) :
    (reading.andThen next within).Accounts ending tokens := by
  refine start.andThen_of_taken (List.nil_append tokens).symm ?_
  intro value taken rest bounded _ whole
  rw [whole]
  exact (behind value rest bounded).after taken

end Accounts

end Lemmas

end Reading

open Reading

variable (ending)

/-- A punctuator that has to come is taken, or the token in its place stays unread. -/
theorem accounts_expect (mark : Punctuator) (tokens : List Token) :
    (expect ending mark tokens).Accounts ending tokens := by
  unfold expect
  split
  · exact accounts_reject [] rfl .ended
  next token rest =>
    split
    next => exact accounts_accept [token] rfl
    next other => exact accounts_reject [] rfl (.missing other)

/-- A name that has to come is taken, and so is the token in its place. -/
theorem accounts_identifier (tokens : List Token) :
    (identifier ending tokens).Accounts ending tokens := by
  unfold identifier
  split
  · exact accounts_reject [] rfl .ended
  next name span rest => exact accounts_accept [⟨.identifier name, span⟩] rfl
  next token rest _ => exact accounts_reject [token] rfl (.unexpected rfl)

mutual

/-- Expressions of every tier account for their tokens. An assignment is refused in view of
what was read on both sides of its equals sign. -/
theorem accounts_expressionOf : (tier : Tier) → (tokens : List Token) →
    (expressionOf ending tier tokens).Accounts ending tokens
  | .assignment, tokens => by
      rw [expressionOf]
      refine (accounts_expressionOf (.infixed .disjunction) tokens).andThen_of_taken
        (List.nil_append tokens).symm ?_
      rintro target left (_ | ⟨token, rest⟩) shorter assigned whole
      · exact accounts_accept left whole
      · simp only
        split
        next equals =>
          have placed : tokens = (left ++ [token]) ++ rest := by simpa using whole
          refine (accounts_expressionOf .assignment rest).andThen_of_taken placed ?_
          rintro value right rest _ read rfl
          have taken : tokens = (left ++ token :: right) ++ rest := by simpa using whole
          split
          next => exact accounts_accept _ taken
          -- The error is about the equals sign, which stands between what was read on its two
          -- sides.
          next noVariable =>
            rw [taken] at assigned
            have placed : left ++ token :: right = [] ++ left ++ token :: right := rfl
            exact accounts_reject _ taken (.refused placed equals assigned noVariable read)
        next => exact accounts_accept left whole
  | .infixed level, tokens => by
      rw [expressionOf]
      exact (accounts_expressionOf level.operand tokens).andThen fun left rest _ =>
        (accounts_operationsOf level left rest).widen
  | .unary, [] => by
      rw [expressionOf]
      exact accounts_expressionOf .primary []
  | .unary, token :: rest => by
      rw [expressionOf]
      split
      · exact (accounts_expressionOf .unary rest).map.cons token
      · exact accounts_expressionOf .primary (token :: rest)
  | .primary, [] => by
      rw [expressionOf]
      exact accounts_reject [] rfl .ended
  | .primary, token :: rest => by
      rw [expressionOf]
      split
      · exact accounts_accept [token] rfl
      · split
        · refine ((accounts_expressionOf .assignment rest).andThen ?_).cons token
          exact fun inner rest _ => (accounts_expect ending .rightParen rest).map
        · exact accounts_reject [token] rfl (.unexpected rfl)
termination_by tier tokens => tokens.length * 10 + tier.looseness
decreasing_by
  all_goals have : Level.disjunction.looseness = 5 := rfl
  all_goals (try rw [Level.looseness_operand])
  all_goals simp only [List.length_cons, Tier.looseness] at *
  all_goals omega

/-- Operators and their operands account for their tokens. -/
theorem accounts_operationsOf : (level : Level) → (left : Expr) → (tokens : List Token) →
    (operationsOf ending level left tokens).Accounts ending tokens
  | _, _, [] => by
      rw [operationsOf]
      exact accounts_accept [] rfl
  | level, left, token :: rest => by
      rw [operationsOf]
      split
      next operator _ =>
        split
        · refine ((accounts_expressionOf level.operand rest).andThen ?_).cons token
          intro right rest bounded
          exact (accounts_operationsOf level (operator.combine left right token.span) rest).widen
        · exact accounts_accept [] rfl
      · exact accounts_accept [] rfl
termination_by _ _ tokens => tokens.length * 10
decreasing_by
  all_goals have := level.looseness_le
  all_goals simp only [List.length_cons, Level.looseness_operand] at *
  all_goals omega

end

/-- An expression accounts for its tokens. -/
theorem accounts_expression (tokens : List Token) :
    (expression ending tokens).Accounts ending tokens :=
  accounts_expressionOf ending .assignment tokens

/-- An expression that may be left out accounts for its tokens, of which there may be none. -/
theorem accounts_optionalExpression (terminator : Punctuator) (tokens : List Token) :
    (optionalExpression ending terminator tokens).Accounts ending tokens := by
  unfold optionalExpression
  split
  · exact (accounts_expression ending []).map
  · split
    · exact accounts_accept [] rfl
    · exact (accounts_expression ending _).map

/-- An expression statement accounts for its tokens. -/
theorem accounts_expressionStatement (tokens : List Token) :
    (expressionStatement ending tokens).Accounts ending tokens :=
  (accounts_expression ending tokens).andThen fun _ rest _ =>
    (accounts_expect ending .semicolon rest).map

/-- An initial value accounts for its tokens, of which there may be none. -/
theorem accounts_initializer (tokens : List Token) :
    (initializer ending tokens).Accounts ending tokens := by
  unfold initializer
  split
  · exact accounts_accept [] rfl
  · split
    · exact (accounts_expression ending _).map.cons _
    · exact accounts_accept [] rfl

/-- A variable declaration accounts for its tokens. -/
theorem accounts_variableDeclaration (span : Span) (tokens : List Token) :
    (variableDeclaration ending span tokens).Accounts ending tokens :=
  (accounts_identifier ending tokens).andThen fun _ rest _ =>
    (accounts_initializer ending rest).andThen fun _ rest _ =>
      (accounts_expect ending .semicolon rest).map

/-- A return statement accounts for its tokens. -/
theorem accounts_returnStatement (span : Span) (tokens : List Token) :
    (returnStatement ending span tokens).Accounts ending tokens :=
  (accounts_optionalExpression ending .semicolon tokens).andThen fun _ rest _ =>
    (accounts_expect ending .semicolon rest).map

/-- A print statement accounts for its tokens. -/
theorem accounts_printStatement (span : Span) (tokens : List Token) :
    (printStatement ending span tokens).Accounts ending tokens :=
  (accounts_expression ending tokens).andThen fun _ rest _ =>
    (accounts_expect ending .semicolon rest).map

/-- The first clause of a `for` accounts for its tokens. -/
theorem accounts_forInitializer (tokens : List Token) :
    (forInitializer ending tokens).Accounts ending tokens := by
  unfold forInitializer
  split
  · exact (accounts_expressionStatement ending []).map
  next token rest =>
    split
    · exact accounts_accept [token] rfl
    · exact (accounts_variableDeclaration ending _ rest).map.cons token
    · exact (accounts_expressionStatement ending _).map

/-- Names between commas account for their tokens, by induction on what is left of them. -/
theorem accounts_parameterNames (tokens : List Token) :
    (parameterNames ending tokens).Accounts ending tokens := by
  rw [parameterNames]
  refine (accounts_identifier ending tokens).andThen ?_
  rintro name (_ | ⟨token, rest⟩) bounded
  · exact accounts_reject [] rfl .ended
  · simp only
    split
    · have shorter : rest.length + 1 ≤ tokens.length - 1 := bounded
      exact (accounts_parameterNames rest).map.cons token
    · exact (accounts_expect ending .rightParen _).map
termination_by tokens.length

/-- Parameters in parentheses account for their tokens. -/
theorem accounts_parameters (tokens : List Token) :
    (parameters ending tokens).Accounts ending tokens := by
  refine (accounts_expect ending .leftParen tokens).andThen ?_
  rintro _ (_ | ⟨token, rest⟩) _
  · exact (accounts_parameterNames ending []).widen
  · simp only
    split
    · exact accounts_accept [token] rfl
    · exact (accounts_parameterNames ending _).widen

/-- A superclass accounts for its tokens, of which there may be none. -/
theorem accounts_superclass (tokens : List Token) :
    (superclass ending tokens).Accounts ending tokens := by
  unfold superclass
  split
  · exact accounts_accept [] rfl
  · split
    · exact (accounts_identifier ending _).map.cons _
    · exact accounts_accept [] rfl

mutual

/-- Declarations account for their tokens. -/
theorem accounts_declaration : (tokens : List Token) →
    (declaration ending tokens).Accounts ending tokens
  | [] => by
      rw [declaration]
      exact accounts_statement []
  | token :: rest => by
      rw [declaration]
      split
      · exact (accounts_classDeclaration token.span rest).widen.cons token
      · exact (accounts_function token.span rest).map.cons token
      · exact (accounts_variableDeclaration ending token.span rest).widen.cons token
      · exact accounts_statement (token :: rest)
termination_by tokens => tokens.length * 10 + 1

/-- Statements account for their tokens. -/
theorem accounts_statement : (tokens : List Token) →
    (statement ending tokens).Accounts ending tokens
  | [] => by
      rw [statement]
      exact accounts_expressionStatement ending []
  | token :: rest => by
      rw [statement]
      split
      · exact (accounts_blockBody rest).map.cons token
      · exact (accounts_conditional token.span rest).widen.cons token
      · exact (accounts_whileLoop token.span rest).widen.cons token
      · exact (accounts_forLoop token.span rest).widen.cons token
      · exact (accounts_returnStatement ending token.span rest).widen.cons token
      · exact (accounts_printStatement ending token.span rest).widen.cons token
      · exact accounts_expressionStatement ending (token :: rest)
termination_by tokens => tokens.length * 10

/-- Blocks account for their tokens. -/
theorem accounts_blockBody (tokens : List Token) :
    (blockBody ending tokens).Accounts ending tokens := by
  rw [blockBody]
  refine (accounts_declaration tokens).andThen ?_
  intro node rest _
  exact (accounts_blockRest rest).map
termination_by tokens.length * 10 + 3

/-- The rest of a block accounts for its tokens. -/
theorem accounts_blockRest : (tokens : List Token) →
    (blockRest ending tokens).Accounts ending tokens
  | [] => by
      rw [blockRest]
      exact accounts_reject [] rfl .ended
  | token :: rest => by
      rw [blockRest]
      split
      · exact accounts_accept [token] rfl
      · refine (accounts_declaration (token :: rest)).andThen ?_
        intro node rest bounded
        exact (accounts_blockRest rest).map
termination_by tokens => tokens.length * 10 + 2
decreasing_by all_goals (simp only [List.length_cons] at *; omega)

/-- Conditionals account for their tokens. -/
theorem accounts_conditional (span : Span) (tokens : List Token) :
    (conditional ending span tokens).Accounts ending tokens := by
  rw [conditional]
  refine (accounts_expression ending tokens).andThen ?_
  intro condition middle shorter
  refine (accounts_statement middle).andThen ?_
  rintro thenBranch (_ | ⟨token, rest⟩) bounded
  · exact accounts_accept [] rfl
  · have shorterRest : rest.length + 1 ≤ middle.length - 1 := bounded
    simp only
    split
    · exact (accounts_statement rest).map.cons token
    · exact accounts_accept [] rfl
termination_by tokens.length * 10 + 1

/-- While loops account for their tokens. -/
theorem accounts_whileLoop (span : Span) (tokens : List Token) :
    (whileLoop ending span tokens).Accounts ending tokens := by
  rw [whileLoop]
  refine (accounts_expression ending tokens).andThen ?_
  intro condition rest shorter
  exact (accounts_statement rest).map
termination_by tokens.length * 10 + 1

/-- For loops account for their tokens. -/
theorem accounts_forLoop (span : Span) (tokens : List Token) :
    (forLoop ending span tokens).Accounts ending tokens := by
  rw [forLoop]
  refine (accounts_expect ending .leftParen tokens).andThen ?_
  intro _ clauses _
  refine (accounts_forInitializer ending clauses).andThen ?_
  intro first conditions _
  refine (accounts_optionalExpression ending .semicolon conditions).andThen ?_
  intro condition separated _
  refine (accounts_expect ending .semicolon separated).andThen ?_
  intro _ increments _
  refine (accounts_optionalExpression ending .rightParen increments).andThen ?_
  intro increment closed _
  refine (accounts_expect ending .rightParen closed).andThen ?_
  intro _ repeated _
  exact (accounts_statement repeated).map
termination_by tokens.length * 10 + 1

/-- Functions account for their tokens. -/
theorem accounts_function (span : Span) (tokens : List Token) :
    (function ending span tokens).Accounts ending tokens := by
  rw [function]
  refine (accounts_identifier ending tokens).andThen ?_
  intro name listed _
  refine (accounts_parameters ending listed).andThen ?_
  intro names opened _
  refine (accounts_expect ending .leftBrace opened).andThen ?_
  intro _ inside _
  exact (accounts_blockBody inside).map
termination_by tokens.length * 10 + 4

/-- Methods account for their tokens. -/
theorem accounts_methods : (tokens : List Token) →
    (methods ending tokens).Accounts ending tokens
  | [] => by
      rw [methods]
      exact accounts_reject [] rfl .ended
  | token :: rest => by
      rw [methods]
      split
      · exact accounts_accept [token] rfl
      · refine (accounts_function token.span (token :: rest)).andThen ?_
        intro method rest bounded
        exact (accounts_methods rest).map
termination_by tokens => tokens.length * 10 + 5
decreasing_by all_goals (simp only [List.length_cons] at *; omega)

/-- Classes account for their tokens. -/
theorem accounts_classDeclaration (span : Span) (tokens : List Token) :
    (classDeclaration ending span tokens).Accounts ending tokens := by
  rw [classDeclaration]
  refine (accounts_identifier ending tokens).andThen ?_
  intro name above _
  refine (accounts_superclass ending above).andThen ?_
  intro parent opened _
  refine (accounts_expect ending .leftBrace opened).andThen ?_
  intro _ inside _
  exact (accounts_methods inside).map
termination_by tokens.length * 10 + 6

end

/-- What is read as one node of a program accounts for its tokens, in either mode. -/
theorem accounts_topLevel (mode : Mode) (tokens : List Token) :
    (topLevel mode ending tokens).Accounts ending tokens := by
  cases mode with
  | expression =>
      rw [topLevel]
      exact (accounts_expression ending tokens).map
  | statement => exact accounts_declaration ending tokens

end Grammar

end TreeWalk
