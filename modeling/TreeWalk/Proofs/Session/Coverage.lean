import TreeWalk.Proofs.Evaluation.Failure
import TreeWalk.Proofs.Grammar.Ambiguity
import TreeWalk.Proofs.Session.Stages

/-!
# What evaluation does not cover

Five constructs can be read but not run: loops of both kinds, returns, classes and functions. Trees
may also have terminals without a value, but no tokens are read as such a tree. So a text that is
read runs up to one of the five, or up to a variable or an operation that fails.
-/

namespace TreeWalk

/-- The node is one of the nodes or stands in one, at any depth. -/
def Node.StandsIn (nodes : List Node) (part : Node) : Prop :=
  ∃ top ∈ nodes, Within Node.children part top

/-- The constructs that are not covered have five names. -/
theorem Construct.text_of_uncovered {node : Node} {construct : Construct}
    (uncovered : node.uncovered? = some construct) :
    construct.text ∈ ["while statement", "for statement", "return statement",
      "class declaration", "function declaration"] := by
  cases node <;> cases uncovered <;> decide

namespace Grammar

variable {mode : Mode} {source : String} {part : Node}

/-- Every terminal of a source that is read is a literal or a variable. -/
theorem isTerminal_of_read (clean : (parse mode source).errors = [])
    (stands : Node.StandsIn (parse mode source).produced part) {clause : Expr}
    (direct : clause ∈ part.clauses) {token : Token}
    (inside : Within Expr.operands (.terminal token) clause) : token.kind.isTerminal := by
  obtain ⟨top, read, within⟩ := stands
  rw [(parse_of_clean clean).2.2] at read
  obtain ⟨shaped, among⟩ := (stretches_nodes _ _ _).wellShapedIn read
  obtain ⟨_, clauses, _⟩ := shaped.within among within
  obtain ⟨shapedClause, _⟩ := clauses clause direct
  exact shapedClause.within inside

/-- A node of a source that is read raises only itself as not covered. -/
theorem uncovered_of_raises (clean : (parse mode source).errors = [])
    (stands : Node.StandsIn (parse mode source).produced part) {construct : Construct}
    {span : Span} (raised : part.Raises (.notImplemented construct span)) :
    part.uncovered? = some construct ∧ part.span = span := by
  cases raised with
  | clause direct inside raised =>
      cases raised with
      | terminal other => exact absurd (isTerminal_of_read clean stands direct inside) other
  | uncovered uncovered => exact ⟨uncovered, rfl⟩

end Grammar

namespace Session

variable {session : Session} {source : String}

/-- The errors of a source that is read are raised in it. -/
theorem raised_of_reported (clean : (Grammar.parse session.mode source).errors = [])
    {error : Error} (reported : error ∈ (session.evaluate source).1.errors) :
    ∃ stopped, error = .runtime stopped ∧
      ∃ part, Node.StandsIn (Grammar.parse session.mode source).produced part ∧
        part.Raises stopped := by
  rw [evaluate_of_clean clean, execute, Option.mem_toList, Option.map_eq_some_iff] at reported
  obtain ⟨stopped, ran, rfl⟩ := reported
  have each : ∀ node ∈ (Grammar.parse session.mode source).produced, node.eval.FailsOnly
      fun stopped => ∃ part, Node.StandsIn (Grammar.parse session.mode source).produced part ∧
        part.Raises stopped := by
    intro node read
    exact node.failsOnly_eval fun part inside _ raised => ⟨part, ⟨node, read, inside⟩, raised⟩
  exact ⟨stopped, rfl, Node.allowed_of_run each none session.scopes ran⟩

/-- What can be read runs or is one of five constructs. On a source that is read without errors,
whatever the session, evaluation fails to cover only a loop, a return, a class or a function, and
reports it where such a node stands in the program. No terminal of the program is without a value,
and if none of the five stands in it, only variables and operations fail. -/
theorem only_five_constructs_are_uncovered (session : Session) (source : String)
    (clean : (Grammar.parse session.mode source).errors = []) :
    (∀ construct span, .runtime (.notImplemented construct span) ∈
        (session.evaluate source).1.errors →
      construct.text ∈ ["while statement", "for statement", "return statement",
        "class declaration", "function declaration"] ∧
      ∃ part, Node.StandsIn (Grammar.parse session.mode source).produced part ∧
        part.uncovered? = some construct ∧ part.span = span) ∧
    (∀ part, Node.StandsIn (Grammar.parse session.mode source).produced part →
      ∀ clause ∈ part.clauses, ∀ token, Within Expr.operands (.terminal token) clause →
        ∀ scopes construct span,
          (token.eval scopes).result ≠ .error (.notImplemented construct span)) ∧
    ((∀ part, Node.StandsIn (Grammar.parse session.mode source).produced part →
        part.uncovered? = none) →
      ∀ error ∈ (session.evaluate source).1.errors,
        (∃ name span, error = .runtime (.undefinedVariable name span)) ∨
          ∃ operation expected span, error = .runtime (.typeMismatch operation expected span)) := by
  refine ⟨?_, ?_, ?_⟩
  · intro construct span reported
    obtain ⟨_, same, part, stands, raised⟩ := raised_of_reported clean reported
    cases same
    obtain ⟨uncovered, place⟩ := Grammar.uncovered_of_raises clean stands raised
    exact ⟨Construct.text_of_uncovered uncovered, part, stands, uncovered, place⟩
  · intro part stands clause direct token inside scopes construct span failure
    have raised : (Expr.terminal token).Raises (.notImplemented construct span) :=
      Token.failsOnly_eval (fun _ raised => raised) scopes _ failure
    cases raised with
    | terminal other => exact other (Grammar.isTerminal_of_read clean stands direct inside)
  · intro covered error reported
    obtain ⟨stopped, rfl, part, stands, raised⟩ := raised_of_reported clean reported
    cases stopped with
    | undefinedVariable => exact .inl ⟨_, _, rfl⟩
    | typeMismatch => exact .inr ⟨_, _, _, rfl⟩
    | notImplemented =>
        obtain ⟨uncovered, _⟩ := Grammar.uncovered_of_raises clean stands raised
        rw [covered part stands] at uncovered
        cases uncovered

/-- Of a loop in a block only the loop is not covered. -/
theorem only_five_constructs_are_uncovered_loop :
    let session : Session := { mode := .statement }
    let source := "var a = nil; { print a; while (true) print a; }"
    (Grammar.parse session.mode source).errors = [] ∧
      .runtime (.notImplemented .whileStatement ⟨1, 24, 5⟩) ∈ (session.evaluate source).1.errors ∧
      ∃ part, Node.StandsIn (Grammar.parse session.mode source).produced part ∧
        part.uncovered? = some .whileStatement ∧ part.span = ⟨1, 24, 5⟩ := by
  intro session source
  have clean : (Grammar.parse session.mode source).errors = [] := by decide +kernel
  have reported : .runtime (.notImplemented .whileStatement ⟨1, 24, 5⟩) ∈
      (session.evaluate source).1.errors := by decide +kernel
  obtain ⟨uncovered, _, _⟩ := only_five_constructs_are_uncovered session source clean
  exact ⟨clean, reported, (uncovered _ _ reported).2⟩

end Session

end TreeWalk
