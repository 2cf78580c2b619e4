import TreeWalk.Proofs.Session.Pieces

/-!
# Layout

Blanks, line breaks and comments move tokens about and do nothing else. What is read from
tokens depends on their kinds, and what is run does not look at spans. So two sources with the
same kinds of tokens are one program, and its errors differ in their places at most.
-/

namespace TreeWalk

/-- One span for all. -/
def Span.forget (_ : Span) : Span := {}

/-- Tokens whose spans are forgotten are their kinds. -/
theorem Token.map_relocate_forget {first second : List Token}
    (same : first.map Token.kind = second.map Token.kind) :
    first.map (Token.relocate .forget) = second.map (Token.relocate .forget) := by
  have bare : ∀ tokens : List Token, tokens.map (Token.relocate .forget) =
      (tokens.map Token.kind).map fun kind => ⟨kind, {}⟩ := by
    intro tokens
    rw [List.map_map]
    rfl
  rw [bare, bare, same]

namespace Grammar

variable {mode : Mode} {source first second : String}

/-- A source that scans without errors is read as its tokens are, wherever they stand. -/
theorem parse_relocate {move : Span → Span} (after : ∀ span, (move span).after = move span.after)
    (mode : Mode) (scans : (scan source).errors = []) :
    let read := program mode ((scan source).produced.map (Token.relocate move))
    (parse mode source).produced.map (Node.relocate move) = read.produced ∧
      (parse mode source).errors.map (Error.relocate move) = read.errors.map .syntactic := by
  intro read
  have moved : read = _ := program_relocate after mode (scan source).produced
  rw [moved, parse, scans]
  constructor
  · rfl
  · simp only [List.isEmpty_nil, if_true, List.map_map]
    rfl

/-- Sources with the same kinds of tokens are read alike, in either mode. -/
theorem parse_eq_of_kinds (mode : Mode) (firstScans : (scan first).errors = [])
    (secondScans : (scan second).errors = [])
    (same : (scan first).produced.map Token.kind = (scan second).produced.map Token.kind) :
    (parse mode first).produced.map (Node.relocate .forget) =
        (parse mode second).produced.map (Node.relocate .forget) ∧
      (parse mode first).errors.map (Error.relocate .forget) =
        (parse mode second).errors.map (Error.relocate .forget) := by
  have after : ∀ span : Span, span.forget.after = span.after.forget := fun _ => rfl
  obtain ⟨firstNodes, firstErrors⟩ := parse_relocate after mode firstScans
  obtain ⟨secondNodes, secondErrors⟩ := parse_relocate after mode secondScans
  have tokens := Token.map_relocate_forget same
  rw [firstNodes, firstErrors, secondNodes, secondErrors, tokens]
  exact ⟨rfl, rfl⟩

end Grammar

/-- The response with the spans of its errors moved. -/
def Response.relocate (move : Span → Span) (response : Response) : Response :=
  { response with errors := response.errors.map (Error.relocate move) }

/-- What a session does with a source is what it does with the moved nodes and errors that are
read from it, but for the spans of the errors. -/
theorem Session.evaluate_relocate (session : Session) (move : Span → Span) (source : String) :
    let nodes := (Grammar.parse session.mode source).produced.map (Node.relocate move)
    let errors := (Grammar.parse session.mode source).errors.map (Error.relocate move)
    ((session.evaluate source).1.relocate move, (session.evaluate source).2) =
      if errors.isEmpty then session.execute nodes else (⟨none, errors, []⟩, session) := by
  intro nodes errors
  rw [List.isEmpty_map, execute_relocate, evaluate]
  split <;> rfl

/-- A session does the same with sources that are read alike but for spans. -/
theorem Session.evaluate_eq_of_parse {session : Session} {move : Span → Span}
    {first second : String}
    (nodes : (Grammar.parse session.mode first).produced.map (Node.relocate move) =
      (Grammar.parse session.mode second).produced.map (Node.relocate move))
    (errors : (Grammar.parse session.mode first).errors.map (Error.relocate move) =
      (Grammar.parse session.mode second).errors.map (Error.relocate move)) :
    (session.evaluate first).1.relocate move = (session.evaluate second).1.relocate move ∧
      (session.evaluate first).2 = (session.evaluate second).2 := by
  have firstRuns := session.evaluate_relocate move first
  have secondRuns := session.evaluate_relocate move second
  rw [nodes, errors] at firstRuns
  exact Prod.ext_iff.1 (firstRuns.trans secondRuns.symm)

/-- Layout does not change what a program means. Two sources that scan without errors to the
same kinds of tokens are read as the same nodes with the same errors, up to spans, in either
mode. A session gives the same value and prints the same lines for both, is left the same, and
reports the same errors up to spans. -/
theorem layout_keeps_meaning {first second : String} (firstScans : (scan first).errors = [])
    (secondScans : (scan second).errors = [])
    (same : (scan first).produced.map Token.kind = (scan second).produced.map Token.kind) :
    (∀ mode,
      (Grammar.parse mode first).produced.map (Node.relocate .forget) =
          (Grammar.parse mode second).produced.map (Node.relocate .forget) ∧
        (Grammar.parse mode first).errors.map (Error.relocate .forget) =
          (Grammar.parse mode second).errors.map (Error.relocate .forget)) ∧
    (∀ session : Session,
      let one := session.evaluate first
      let two := session.evaluate second
      one.1.value = two.1.value ∧ one.1.printed = two.1.printed ∧ one.2 = two.2 ∧
        one.1.errors.map (Error.relocate .forget) = two.1.errors.map (Error.relocate .forget)) := by
  have reads := fun mode => Grammar.parse_eq_of_kinds mode firstScans secondScans same
  refine ⟨reads, ?_⟩
  intro session one two
  obtain ⟨nodes, errors⟩ := reads session.mode
  obtain ⟨responses, sessions⟩ := Session.evaluate_eq_of_parse nodes errors
  rw [Response.relocate, Response.relocate, Response.mk.injEq] at responses
  obtain ⟨values, reported, lines⟩ := responses
  exact ⟨values, lines, sessions, reported⟩

/-- A line that is printed and a negation that fails, close together and far apart. -/
theorem layout_keeps_meaning_negation :
    let close := "print\"é\";-nil;"
    let apart := "// one line\r\n\tprint \"é\" ;\n- nil ; // the end"
    (scan close).errors = [] ∧ (scan apart).errors = [] ∧
      (scan close).produced.map Token.kind = (scan apart).produced.map Token.kind ∧
      (Session.evaluate { mode := .statement } apart).1.printed = ["é"] ∧
      (Session.evaluate { mode := .statement } apart).1.errors.map (Error.relocate .forget) =
        [.runtime (.typeMismatch (.unary .negate) .number {})] := by
  intro close apart
  have closeScans : (scan close).errors = [] := by decide +kernel
  have apartScans : (scan apart).errors = [] := by decide +kernel
  have same : (scan close).produced.map Token.kind = (scan apart).produced.map Token.kind := by
    decide +kernel
  obtain ⟨_, lines, _, errors⟩ :=
    (layout_keeps_meaning closeScans apartScans same).2 { mode := .statement }
  refine ⟨closeScans, apartScans, same, ?_, ?_⟩
  · rw [← lines]
    decide +kernel
  · rw [← errors]
    decide +kernel

end TreeWalk
