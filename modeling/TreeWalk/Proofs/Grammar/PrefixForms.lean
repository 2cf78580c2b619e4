import TreeWalk.Proofs.Grammar.Ambiguity
import TreeWalk.Proofs.Syntax.Words

/-!
# Prefix forms determine trees

A prefix form can be read in one way only, and trees of one form have one outline. So a prefix form
determines the tree that it was made of, as far as it shows it: strings stand there without their
quotes, numbers beyond the finite ones look like names, and so does an absent clause of a `for`.
-/

namespace TreeWalk

namespace Node

/-- The literals and variables anywhere in a node. -/
def terminals (node : Node) : List Token :=
  node.parts.flatMap fun part => part.clauses.flatMap Expr.terminals

/-- What the prefix form of a node shows without doubt: no string, whose quotes it leaves out, no
number beyond the finite ones, and no variable `_` where a clause of a `for` may be left out. -/
structure Legible (node : Node) : Prop where
  stringless : ∀ token ∈ node.terminals, ∀ content, token.kind ≠ .string content
  finite : ∀ token ∈ node.terminals, ∀ value lexeme, token.kind = .number value lexeme →
    value.isFinite = true
  present : ∀ part ∈ node.parts, ∀ clause ∈ part.laterClauses, ∀ span,
    clause ≠ .terminal ⟨.identifier "_", span⟩

end Node

/-- Nothing but a variable `_` has the form of what is left out. -/
theorem Expr.eq_of_form_absent {value : Expr} (same : value.form = .absent) :
    ∃ span, value = .terminal ⟨.identifier "_", span⟩ := by
  cases value with
  | terminal token =>
      obtain ⟨kind, span⟩ := token
      cases kind <;> cases same
      exact ⟨span, rfl⟩
  | _ => cases same

/-- A legible node is clear at every depth. -/
theorem Node.Legible.clear {node : Node} (legible : node.Legible) (shaped : node.WellShaped) :
    ∀ part, Within children part node → part.Clear := by
  refine fun part inside => ⟨(shaped.within inside).ne_expression, fun clause direct same => ?_⟩
  obtain ⟨span, rfl⟩ := Expr.eq_of_form_absent same
  exact legible.present part (mem_parts_iff.2 inside) _ direct span rfl

namespace Grammar

variable {mode : Mode} {tokens : List Token} {node : Node}

/-- The form of a legible node of a program is plain. -/
theorem WellShapedIn.plain_form (shaped : WellShapedIn mode node)
    (among : Among Node.Written tokens node) (spelled : ∀ token ∈ tokens, token.kind.Spelled)
    (legible : node.Legible) : node.form.Plain := by
  refine node.plain_form spelled among fun part inside clause direct token present => ?_
  obtain ⟨shapedClause, own, written, subset⟩ := (shaped.within among inside).2.1 clause direct
  have terminal : token ∈ node.terminals :=
    List.mem_flatMap.2 ⟨part, Node.mem_parts_iff.2 inside,
      List.mem_flatMap.2 ⟨clause, direct, present⟩⟩
  exact (spelled token (subset (written.terminals_subset present))).plain_terminal
    (shapedClause.isTerminal token present) (legible.stringless token terminal)
    (legible.finite token terminal)

/-- The prefix form determines the tree. Two legible nodes that are read in one mode from any two
sources, whatever errors these have, are the same up to the places of their tokens and the ways in
which their numbers are written, if they have one prefix form. -/
theorem prefix_form_determines_tree (mode : Mode) {first second : String} {node other : Node}
    (read : node ∈ (program mode (scan first).produced).produced)
    (otherRead : other ∈ (program mode (scan second).produced).produced)
    (legible : node.Legible) (otherLegible : other.Legible)
    (same : node.prefixForm = other.prefixForm) : node.outline = other.outline := by
  obtain ⟨shaped, among⟩ := (stretches_nodes mode (endingOf _) _).wellShapedIn read
  obtain ⟨otherShaped, otherAmong⟩ := (stretches_nodes mode (endingOf _) _).wellShapedIn otherRead
  have plain := shaped.plain_form among (munched_scan first).spelled legible
  have otherPlain := otherShaped.plain_form otherAmong (munched_scan second).spelled otherLegible
  have forms : node.form = other.form := by
    refine plain.eq_of_text_eq otherPlain ?_
    rw [← node.toList_prefixForm, ← other.toList_prefixForm, same]
  cases mode with
  | expression =>
      obtain ⟨value, rfl, _⟩ := shaped
      obtain ⟨otherValue, rfl, _⟩ := otherShaped
      exact congrArg Node.expression (Expr.outline_eq_of_form_eq forms)
  | statement =>
      exact node.outline_eq_of_form_eq other (legible.clear shaped) (otherLegible.clear otherShaped)
        forms

/-- A loop without clauses that prints one is the same loop when it is laid out otherwise and
prints one with a point. -/
theorem prefix_form_determines_tree_layout :
    ∃ node ∈ (program .statement (scan "for (;;) print 1;").produced).produced,
      ∃ other ∈ (program .statement (scan "for ( ; ; ) print 1.0;").produced).produced,
        node.prefixForm = other.prefixForm ∧ node.outline = other.outline := by
  let loop (lexeme : String) (shown number : Span) : Node :=
    .forLoop none none none
      (.print (.terminal ⟨.number (Float.ofBits 0x3ff0000000000000) lexeme, number⟩) shown)
      ⟨1, 0, 3⟩
  have shaped (lexeme : String) (shown number : Span) :
      Node.AllWellShaped [loop lexeme shown number] := by
    simp [loop, Node.AllWellShaped, Node.WellShaped, Expr.WellShaped, Kind.isTerminal,
      Node.isStatement]
  have legible (lexeme : String) (shown number : Span) : (loop lexeme shown number).Legible := by
    refine ⟨by simp [loop, Node.terminals, Node.parts, Node.clauses, Expr.terminals], ?_,
      by simp [loop, Node.parts, Node.laterClauses]⟩
    intro token present value lexeme same
    obtain rfl := List.mem_singleton.1 present
    cases same
    decide +kernel
  have firstScan : (scan "for (;;) print 1;").produced =
      [⟨.keyword .forWord, ⟨1, 0, 3⟩⟩, ⟨.punctuator .leftParen, ⟨1, 4, 1⟩⟩,
        ⟨.punctuator .semicolon, ⟨1, 5, 1⟩⟩, ⟨.punctuator .semicolon, ⟨1, 6, 1⟩⟩,
        ⟨.punctuator .rightParen, ⟨1, 7, 1⟩⟩, ⟨.keyword .printWord, ⟨1, 9, 5⟩⟩,
        ⟨.number (Float.ofBits 0x3ff0000000000000) "1", ⟨1, 15, 1⟩⟩,
        ⟨.punctuator .semicolon, ⟨1, 16, 1⟩⟩] := by
    decide +kernel
  have secondScan : (scan "for ( ; ; ) print 1.0;").produced =
      [⟨.keyword .forWord, ⟨1, 0, 3⟩⟩, ⟨.punctuator .leftParen, ⟨1, 4, 1⟩⟩,
        ⟨.punctuator .semicolon, ⟨1, 6, 1⟩⟩, ⟨.punctuator .semicolon, ⟨1, 8, 1⟩⟩,
        ⟨.punctuator .rightParen, ⟨1, 10, 1⟩⟩, ⟨.keyword .printWord, ⟨1, 12, 5⟩⟩,
        ⟨.number (Float.ofBits 0x3ff0000000000000) "1.0", ⟨1, 18, 3⟩⟩,
        ⟨.punctuator .semicolon, ⟨1, 21, 1⟩⟩] := by
    decide +kernel
  have first : program .statement (scan "for (;;) print 1;").produced =
      ⟨[loop "1" ⟨1, 9, 5⟩ ⟨1, 15, 1⟩], []⟩ := by
    rw [firstScan]
    exact nodes_of_allWritten (shaped _ _ _)
      (.cons (.forLoop _ _ _ (.none _) .none .none (.print _ .terminal)) .nil)
  have second : program .statement (scan "for ( ; ; ) print 1.0;").produced =
      ⟨[loop "1.0" ⟨1, 12, 5⟩ ⟨1, 18, 3⟩], []⟩ := by
    rw [secondScan]
    exact nodes_of_allWritten (shaped _ _ _)
      (.cons (.forLoop _ _ _ (.none _) .none .none (.print _ .terminal)) .nil)
  have read : loop "1" ⟨1, 9, 5⟩ ⟨1, 15, 1⟩ ∈
      (program .statement (scan "for (;;) print 1;").produced).produced := by
    rw [first]
    exact List.mem_cons_self
  have otherRead : loop "1.0" ⟨1, 12, 5⟩ ⟨1, 18, 3⟩ ∈
      (program .statement (scan "for ( ; ; ) print 1.0;").produced).produced := by
    rw [second]
    exact List.mem_cons_self
  exact ⟨_, read, _, otherRead, rfl,
    prefix_form_determines_tree .statement read otherRead (legible _ _ _) (legible _ _ _) rfl⟩

end Grammar

end TreeWalk
