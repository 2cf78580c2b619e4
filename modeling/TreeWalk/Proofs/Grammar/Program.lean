import TreeWalk.Proofs.Grammar.Phrase
import TreeWalk.Proofs.Syntax.Writing

/-!
# Reading programs

A program is read stretch by stretch. Each stretch is either the written form of one node
or ends in an error, and without errors the stretches of the nodes are the whole program.
What was written down as a list of nodes is read as that list.
-/

namespace TreeWalk

/-- The error is about one of the tokens, or about the end just past the last one. -/
def SyntaxError.StandsIn (tokens : List Token) : SyntaxError → Prop
  | unexpectedToken found => found ∈ tokens
  | missingToken _ found => found ∈ tokens
  | unexpectedEnd span => ∃ last, tokens.getLast? = some last ∧ span = last.span.after

namespace Grammar

variable {mode : Mode} {ending : Span} {token : Token} {tokens rest : List Token} {node : Node}

/-- A node that is read stands in front of the nodes that are read behind it. -/
theorem nodes_of_success (read : (topLevel mode ending (token :: tokens)).Succeeds node rest) :
    nodes mode ending (token :: tokens) =
      ⟨node :: (nodes mode ending rest).produced, (nodes mode ending rest).errors⟩ := by
  obtain ⟨outcome, rfl⟩ := read
  rw [nodes]
  split
  next same => simp_all
  next same => simp_all

/-- An error stands in front of the errors that are met behind it. -/
theorem nodes_of_failure {error : SyntaxError}
    (failure : (topLevel mode ending (token :: tokens)).outcome = .error error)
    (left : (topLevel mode ending (token :: tokens)).rest = rest) :
    nodes mode ending (token :: tokens) =
      ⟨(nodes mode ending rest).produced, error :: (nodes mode ending rest).errors⟩ := by
  subst left
  rw [nodes]
  split
  next same => simp_all
  next same => simp_all

/-- What a node of a program is read from. -/
theorem written_of_topLevel (read : (topLevel mode ending tokens).Succeeds node rest) :
    ∃ consumed, node.Written consumed ∧ tokens = consumed ++ rest := by
  cases mode with
  | expression =>
      rw [topLevel] at read
      obtain ⟨value, stated, rfl⟩ := Reading.succeeds_map.1 read
      obtain ⟨_, _, consumed, written, whole⟩ := succeeds_condition.1 stated
      exact ⟨consumed, .expression written, whole⟩
  | statement => exact (succeeds_declaration.1 read).written

/-- The stretches of tokens that make up a program. Each was read as a node or ended in an
error, with all the tokens behind it in view. -/
inductive Stretches (mode : Mode) (ending : Span) :
    List Token → List Node → List SyntaxError → Prop where
  | nil : Stretches mode ending [] [] []
  | node {node tokens rest nodes errors}
      (read : (topLevel mode ending (tokens ++ rest)).Succeeds node rest)
      (written : node.Written tokens) (behind : Stretches mode ending rest nodes errors) :
      Stretches mode ending (tokens ++ rest) (node :: nodes) errors
  | error {error tokens rest nodes errors}
      (failure : (topLevel mode ending (tokens ++ rest)).outcome = .error error)
      (left : (topLevel mode ending (tokens ++ rest)).rest = rest)
      (progress : tokens ≠ []) (behind : Stretches mode ending rest nodes errors) :
      Stretches mode ending (tokens ++ rest) nodes (error :: errors)

/-- Reading nodes goes through the tokens stretch by stretch. -/
theorem stretches_nodes (mode : Mode) (ending : Span) (tokens : List Token) :
    Stretches mode ending tokens (nodes mode ending tokens).produced
      (nodes mode ending tokens).errors := by
  cases tokens with
  | nil =>
      rw [nodes]
      exact .nil
  | cons token tokens =>
      obtain ⟨rest, left⟩ : ∃ rest, (topLevel mode ending (token :: tokens)).rest = rest :=
        ⟨_, rfl⟩
      have shorter : (topLevel mode ending (token :: tokens)).rest.length ≤ tokens.length :=
        (topLevel mode ending (token :: tokens)).bounded
      rw [left] at shorter
      have behind := stretches_nodes mode ending rest
      cases outcome : (topLevel mode ending (token :: tokens)).outcome with
      | ok node =>
          have read : (topLevel mode ending (token :: tokens)).Succeeds node rest :=
            ⟨outcome, left⟩
          obtain ⟨consumed, written, whole⟩ := written_of_topLevel read
          rw [nodes_of_success read]
          rw [whole] at read ⊢
          exact .node read written behind
      | error error =>
          obtain ⟨consumed, progress, whole⟩ :=
            (accounts_topLevel ending mode (token :: tokens)).exists_taken (Nat.lt_succ_self _)
          rw [left] at whole
          rw [nodes_of_failure outcome left]
          rw [whole] at outcome left ⊢
          exact .error outcome left progress behind
termination_by tokens.length

/-- Without errors every stretch is a node. -/
theorem Stretches.allWritten {nodes : List Node}
    (stretches : Stretches mode ending tokens nodes []) : Node.AllWritten nodes tokens := by
  generalize none : ([] : List SyntaxError) = errors at stretches
  induction stretches with
  | nil => exact .nil
  | node _ written _ behind => exact .cons written (behind none)
  | error => cases none

/-- The nodes of a program are well-shaped. -/
theorem Stretches.allWellShaped {nodes : List Node} {errors : List SyntaxError}
    (stretches : Stretches .statement ending tokens nodes errors) : Node.AllWellShaped nodes := by
  induction stretches with
  | nil => trivial
  | node read _ _ behind => exact ⟨(succeeds_declaration.1 read).shaped, behind⟩
  | error _ _ _ _ behind => exact behind

/-- The error of a stretch is about its tokens and those that its rule left. -/
theorem concerns_of_failure {error : SyntaxError}
    (failure : (topLevel mode ending (tokens ++ rest)).outcome = .error error)
    (left : (topLevel mode ending (tokens ++ rest)).rest = rest) :
    error.Concerns ending tokens rest := by
  obtain ⟨taken, whole, about⟩ := accounts_topLevel ending mode (tokens ++ rest)
  rw [left] at whole about
  obtain rfl := List.append_cancel_right whole
  exact about error failure

/-- Every error is about the tokens of its own stretch and those that its rule left. -/
theorem Stretches.concerns {nodes : List Node} {errors : List SyntaxError} {error : SyntaxError}
    (stretches : Stretches mode ending tokens nodes errors) (met : error ∈ errors) :
    ∃ front taken rest, tokens = front ++ taken ++ rest ∧ taken ≠ [] ∧
      error.Concerns ending taken rest := by
  induction stretches with
  | nil => cases met
  | @node _ consumed _ _ _ _ _ _ inductionHypothesis =>
      obtain ⟨front, taken, rest, rfl, progress, about⟩ := inductionHypothesis met
      exact ⟨consumed ++ front, taken, rest, by simp, progress, about⟩
  | @error _ consumed behind _ _ failure left progress _ inductionHypothesis =>
      cases met with
      | head => exact ⟨[], consumed, behind, rfl, progress, concerns_of_failure failure left⟩
      | tail _ later =>
          obtain ⟨front, taken, rest, rfl, progress, about⟩ := inductionHypothesis later
          exact ⟨consumed ++ front, taken, rest, by simp, progress, about⟩

/-- The errors of a program are about its tokens and its end. -/
theorem standsIn_of_mem_program {error : SyntaxError} (met : error ∈ (program mode tokens).errors) :
    error.StandsIn tokens := by
  obtain ⟨front, taken, rest, whole, progress, concerns⟩ :=
    (stretches_nodes mode (endingOf tokens) tokens).concerns met
  have within : taken ++ rest ⊆ tokens := by
    rw [whole, List.append_assoc]
    exact List.subset_append_right front _
  cases concerns with
  | missing other => exact within (by simp)
  | unexpected last => exact within (List.mem_append_left rest (List.mem_of_getLast? last))
  | refused placed _ _ _ => exact within (by simp [placed])
  | ended =>
      -- Something was taken, so there is a last token behind which the end was met.
      rw [List.append_nil] at whole
      obtain ⟨last, found⟩ := Option.isSome_iff_exists.1 (List.getLast?_isSome.2 progress)
      have final : tokens.getLast? = some last := by
        rw [whole, List.getLast?_append, found, Option.some_or]
      exact ⟨last, final, by rw [endingOf, final]⟩

/-- Declarations and statements are read back one after the other. -/
theorem nodes_of_allWritten {nodes : List Node} (shaped : Node.AllWellShaped nodes)
    (written : Node.AllWritten nodes tokens) :
    Grammar.nodes .statement ending tokens = ⟨nodes, []⟩ := by
  induction nodes generalizing tokens with
  | nil =>
      cases written
      rw [Grammar.nodes]
  | cons node nodes inductionHypothesis =>
      cases written with
      | @cons _ _ consumed rest first behind =>
          have stops : node.Stops (rest ++ []) := behind.stops shaped.2 node (by simp)
          rw [List.append_nil] at stops
          have read : (topLevel .statement ending (consumed ++ rest)).Succeeds node rest :=
            succeeds_declaration.2 ⟨shaped.1, stops, consumed, first, rfl⟩
          obtain ⟨token, after, rfl, _⟩ := first.first shaped.1
          rw [List.cons_append] at read ⊢
          rw [nodes_of_success read, inductionHypothesis shaped.2 behind]

/-- What is read without errors is written and well-shaped. -/
theorem written_of_program (clean : (program .statement tokens).errors = []) :
    Node.AllWritten (program .statement tokens).produced tokens ∧
      Node.AllWellShaped (program .statement tokens).produced := by
  have stretches := stretches_nodes .statement (endingOf tokens) tokens
  refine ⟨?_, stretches.allWellShaped⟩
  change Stretches .statement _ tokens (program .statement tokens).produced
    (program .statement tokens).errors at stretches
  rw [clean] at stretches
  exact stretches.allWritten

/-- Declarations and statements are read alike alone and behind others. -/
theorem program_append {others : List Token} (clean : (program .statement tokens).errors = [])
    (othersClean : (program .statement others).errors = []) :
    program .statement (tokens ++ others) =
      ⟨(program .statement tokens).produced ++ (program .statement others).produced, []⟩ := by
  obtain ⟨written, shaped⟩ := written_of_program clean
  obtain ⟨othersWritten, othersShaped⟩ := written_of_program othersClean
  exact nodes_of_allWritten (shaped.append othersShaped) (written.append othersWritten)

/-- A source is read without errors if its scan has none and its tokens are read without. -/
theorem parse_of_clean {source : String} (clean : (parse mode source).errors = []) :
    (scan source).errors = [] ∧ (program mode (scan source).produced).errors = [] ∧
      (parse mode source).produced = (program mode (scan source).produced).produced := by
  rw [parse] at clean ⊢
  split at clean
  next scanned =>
    rw [if_pos scanned]
    exact ⟨List.isEmpty_iff.1 scanned, List.map_eq_nil_iff.1 clean, rfl⟩
  next scanned =>
    rw [List.map_eq_nil_iff.1 clean] at scanned
    cases scanned rfl

/-- Bare expressions are read back one after the other, if none but the first begins with
a minus sign. -/
theorem nodes_of_allWritten_expressions {values : List Expr}
    (shaped : ∀ value ∈ values, value.WellShaped)
    (separate : ∀ value ∈ values.tail, ¬ value.startsWithMinus)
    (written : Node.AllWritten (values.map .expression) tokens) :
    Grammar.nodes .expression ending tokens = ⟨values.map .expression, []⟩ := by
  induction values generalizing tokens with
  | nil =>
      cases written
      rw [Grammar.nodes, List.map_nil]
  | cons value values inductionHypothesis =>
      cases written with
      | @cons _ _ consumed rest first behind =>
          obtain ⟨shapedValue, shapedOthers⟩ := List.forall_mem_cons.1 shaped
          -- Of all that opens an expression only a minus sign could go on with the one in front.
          have stops : Tier.assignment.Stops rest := by
            cases values with
            | nil =>
                cases behind
                exact ⟨by simp, by simp⟩
            | cons next others =>
                obtain ⟨shapedNext, _⟩ := List.forall_mem_cons.1 shapedOthers
                obtain ⟨noMinus, _⟩ := List.forall_mem_cons.1 separate
                cases behind with
                | cons second _ =>
                    cases second with
                    | expression bare =>
                        obtain ⟨token, after, rfl, opens, minus⟩ := bare.first shapedNext
                        rw [← minus] at noMinus
                        exact (Tier.stops_assignment_cons
                          (Kind.opensNode_of_opensExpression opens)).2 noMinus
          cases first with
          | expression bare =>
              have read : (topLevel .expression ending (consumed ++ rest)).Succeeds
                  (.expression value) rest := by
                rw [topLevel]
                exact Reading.succeeds_map.2 ⟨value, succeeds_condition.2
                  ⟨shapedValue, stops, consumed, bare, rfl⟩, rfl⟩
              obtain ⟨token, after, rfl, _⟩ := bare.first shapedValue
              rw [List.cons_append] at read ⊢
              have separateOthers : ∀ value ∈ values.tail, ¬ value.startsWithMinus :=
                fun value member => separate value (List.mem_of_mem_tail member)
              rw [nodes_of_success read, inductionHypothesis shapedOthers separateOthers behind]
              rfl

/-- Every well-shaped phrase of a rule can be written. -/
theorem Rule.Allows.exists_written {rule : Rule} {phrase : Phrase} (allowed : rule.Allows phrase) :
    ∃ tokens, phrase.Written tokens := by
  cases phrase with
  | expression value => exact value.exists_written
  | node node =>
      have shaped : node.WellShaped := by
        cases rule with
        | declaration => exact allowed
        | statement => exact allowed.1
        | expression | expressionOf | blockBody => cases allowed
      exact node.exists_written shaped
  | nodes body =>
      have shaped : Node.AllWellShaped body := by
        cases rule with
        | blockBody => exact allowed.2
        | expression | expressionOf | declaration | statement => cases allowed
      obtain ⟨inside, written⟩ := Node.exists_allWritten body shaped
      exact ⟨_, inside, {}, written, rfl⟩

/-- Reading inverts writing. Whatever a rule allows can be written, and is what the rule
reads from any way to write it, in front of anything that it does not go on with. The
same holds of whole programs, in either mode. -/
theorem reading_inverts_writing :
    (∀ (rule : Rule) (phrase : Phrase), rule.Allows phrase →
      (∃ tokens, phrase.Written tokens) ∧
        ∀ tokens rest position ending, phrase.Written tokens → rule.Stops phrase rest →
          rule.run ⟨tokens ++ rest, position, ending⟩ =
            (.ok phrase, ⟨rest, position + tokens.length, ending⟩)) ∧
    (∀ nodes : List Node, Node.AllWellShaped nodes →
      (∃ tokens, Node.AllWritten nodes tokens) ∧
        ∀ tokens, Node.AllWritten nodes tokens → program .statement tokens = ⟨nodes, []⟩) ∧
    (∀ values : List Expr, (∀ value ∈ values, value.WellShaped) →
      (∀ value ∈ values.tail, ¬ value.startsWithMinus) →
      (∃ tokens, Node.AllWritten (values.map .expression) tokens) ∧
        ∀ tokens, Node.AllWritten (values.map .expression) tokens →
          program .expression tokens = ⟨values.map .expression, []⟩) := by
  refine ⟨?_, ?_, ?_⟩
  · intro rule phrase allowed
    refine ⟨allowed.exists_written, ?_⟩
    intro tokens rest position ending written stops
    exact Rule.run_eq_ok_iff.2 ⟨allowed, stops, tokens, written, rfl, rfl, rfl⟩
  · intro nodes shaped
    exact ⟨Node.exists_allWritten nodes shaped, fun _ => nodes_of_allWritten shaped⟩
  · intro values shaped separate
    refine ⟨?_, fun _ => nodes_of_allWritten_expressions shaped separate⟩
    -- Expressions have a written form of whatever shape they are.
    clear shaped separate
    induction values with
    | nil => exact ⟨_, .nil⟩
    | cons value values inductionHypothesis =>
        obtain ⟨tokens, first⟩ := value.exists_written
        obtain ⟨rest, behind⟩ := inductionHypothesis
        exact ⟨_, .cons (.expression first) behind⟩

/-- The program `if a { print -b; } else c = "d" + e;`, with every token at the start. -/
theorem reading_inverts_writing_conditional :
    program .statement
      [⟨.keyword .ifWord, {}⟩, ⟨.identifier "a", {}⟩, ⟨.punctuator .leftBrace, {}⟩,
        ⟨.keyword .printWord, {}⟩, ⟨.punctuator .minus, {}⟩, ⟨.identifier "b", {}⟩,
        ⟨.punctuator .semicolon, {}⟩, ⟨.punctuator .rightBrace, {}⟩, ⟨.keyword .elseWord, {}⟩,
        ⟨.identifier "c", {}⟩, ⟨.punctuator .equal, {}⟩, ⟨.string "d", {}⟩,
        ⟨.punctuator .plus, {}⟩, ⟨.identifier "e", {}⟩, ⟨.punctuator .semicolon, {}⟩] =
      ⟨[.conditional (.terminal ⟨.identifier "a", {}⟩)
        (.block [.print (.unary .negate (.terminal ⟨.identifier "b", {}⟩) {}) {}] {})
        (some (.expressionStatement (.assign ⟨"c", {}⟩
          (.binary (.terminal ⟨.string "d", {}⟩) .add (.terminal ⟨.identifier "e", {}⟩) {}) {})
          {})) {}], []⟩ := by
  refine (reading_inverts_writing.2.1 _ ?_).2 _ (.cons (.alternative {} .terminal
    (.block {} (.cons (.print {} (.unary .terminal)) .nil))
    (.expressionStatement {} (.assign (.binary .terminal .terminal)))) .nil)
  simp [Node.AllWellShaped, Node.WellShaped, Expr.WellShaped, Kind.isTerminal, Node.isStatement,
    Node.startsWithMinus, Node.endsOpen, Expr.tier, Tier.looseness, Expr.span]
  exact ⟨by decide, by decide⟩

/-- Readings drop, invent and reorder nothing. What a rule made is written as the tokens
that it took, and a program is the readings of its stretches in order, which without
errors are the whole of it. -/
theorem readings_take_what_is_written :
    (∀ (rule : Rule) (phrase : Phrase) (cursor after : Cursor),
      rule.run cursor = (.ok phrase, after) →
        ∃ consumed, phrase.Written consumed ∧ cursor.ahead = consumed ++ after.ahead ∧
          after.position = cursor.position + consumed.length) ∧
    (∀ (mode : Mode) (tokens : List Token),
      Stretches mode (endingOf tokens) tokens (program mode tokens).produced
        (program mode tokens).errors) ∧
    (∀ (mode : Mode) (tokens : List Token), (program mode tokens).errors = [] →
      Node.AllWritten (program mode tokens).produced tokens) := by
  refine ⟨?_, ?_, ?_⟩
  · intro rule phrase cursor after success
    obtain ⟨_, _, consumed, written, whole, position, _⟩ := Rule.run_eq_ok_iff.1 success
    exact ⟨consumed, written, whole, position⟩
  · intro mode tokens
    exact stretches_nodes mode (endingOf tokens) tokens
  · intro mode tokens clean
    have stretches := stretches_nodes mode (endingOf tokens) tokens
    rw [program] at clean ⊢
    rw [clean] at stretches
    exact stretches.allWritten

end Grammar

end TreeWalk
