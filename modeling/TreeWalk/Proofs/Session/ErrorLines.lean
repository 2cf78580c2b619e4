import TreeWalk.Proofs.Grammar.Program
import TreeWalk.Proofs.Session.Stages
import TreeWalk.Proofs.Token.Lines
import TreeWalk.Proofs.Token.Rescan

/-!
# Lines of static errors

Reading counts no lines: a syntax error has the line of some token. That is the line of the
error's own offset, unless the end is met behind a string over several lines. Such an end is
reported on the line on which the string starts.
-/

namespace TreeWalk

variable {source : String}

/-- No token but a string goes over a line break. -/
theorem Kind.Spelled.exists_string {kind : Kind} (spelled : kind.Spelled)
    (broken : '\n' ∈ kind.lexeme.toList) :
    ∃ content, kind = .string content ∧ '\n' ∈ content.toList := by
  rcases Piece.Lexical.of_space spelled (.inr rfl) broken with
    ⟨content, _, same | same⟩ | ⟨_, separates⟩
  · obtain ⟨sameKind, sameText⟩ := Piece.mk.inj same
    refine ⟨String.ofList content, Finding.token.inj sameKind, ?_⟩
    rw [sameText] at broken
    simpa using broken
  · cases same
  · cases separates

/-- Just past a token its line is behind by the line breaks within the token. -/
theorem Token.line_after {token : Token} (present : token ∈ (scan source).produced) :
    token.span.after.line + token.kind.lexeme.toList.count '\n' =
      1 + lineBreaksBefore source token.span.after.offset := by
  obtain ⟨text, _, spelled, before, after, whole, placed⟩ := (tiled_scan source).shows_token present
  have ends := Place.line_advance whole
  rw [Place.advance_append] at ends
  rw [spelled, String.toList_ofList, placed]
  exact ends

/-- The line breaks within the last of the tokens. -/
def Token.lineBreaksInLast (tokens : List Token) : Nat :=
  tokens.getLast?.elim 0 fun last => last.kind.lexeme.toList.count '\n'

/-- The last token is a string over several lines. -/
def Token.EndInLines (tokens : List Token) : Prop :=
  ∃ content span, tokens.getLast? = some ⟨.string content, span⟩ ∧ '\n' ∈ content.toList

/-- There are line breaks within the last token exactly if it is a string over several lines. -/
theorem Token.lineBreaksInLast_eq_zero :
    lineBreaksInLast (scan source).produced = 0 ↔ ¬ EndInLines (scan source).produced := by
  rw [lineBreaksInLast]
  cases final : (scan source).produced.getLast? with
  | none => simp [EndInLines, final]
  | some last =>
      rw [Option.elim_some, List.count_eq_zero, not_iff_not]
      constructor
      · intro broken
        have spelled := (munched_scan source).spelled last (List.mem_of_getLast? final)
        obtain ⟨content, same, inside⟩ := spelled.exists_string broken
        exact ⟨content, last.span, by rw [final, ← same], inside⟩
      · rintro ⟨content, span, found, inside⟩
        obtain rfl := Option.some.inj (final.symm.trans found)
        simp [Kind.lexeme, inside]

/-- By how many lines an error comes too early: the end is put on the line on which the last
token starts. -/
def Error.linesEarly (source : String) : Error → Nat
  | syntactic (.unexpectedEnd _) => Token.lineBreaksInLast (scan source).produced
  | _ => 0

/-- A syntax error is reported on its line, up to the line breaks within the last token. -/
theorem SyntaxError.line_of_mem_program {mode : Mode} {error : SyntaxError}
    (met : error ∈ (Grammar.program mode (scan source).produced).errors) :
    error.span.line + Error.linesEarly source (.syntactic error) =
      1 + lineBreaksBefore source error.span.offset := by
  have stands := Grammar.standsIn_of_mem_program met
  cases error with
  | unexpectedToken | missingToken => exact Token.onItsLine_of_mem_scan stands
  | unexpectedEnd span =>
      obtain ⟨last, final, rfl⟩ := stands
      rw [Error.linesEarly, Token.lineBreaksInLast, final]
      exact Token.line_after (List.mem_of_getLast? final)

/-- Static errors are on their lines, but for an end behind a string over several lines. In either
mode the line of an error that parsing reports is one more than the number of line breaks in front
of its offset. Only where the end is met and the last token is such a string is it less, by the
line breaks within the string. -/
theorem errors_on_their_lines_but_ends_of_strings (mode : Mode) (source : String) {error : Error}
    (reported : error ∈ (Grammar.parse mode source).errors) :
    error.span.line + error.linesEarly source = 1 + lineBreaksBefore source error.span.offset ∧
      (error.span.OnItsLine source ↔
        ¬ ((∃ span, error = .syntactic (.unexpectedEnd span)) ∧
          Token.EndInLines (scan source).produced)) := by
  have line : error.span.line + error.linesEarly source =
      1 + lineBreaksBefore source error.span.offset := by
    by_cases scans : (scan source).errors = []
    · rw [Grammar.parse_of_scanned mode scans] at reported
      obtain ⟨met, found, rfl⟩ := List.mem_map.1 reported
      exact SyntaxError.line_of_mem_program found
    · rw [Grammar.parse_of_lexical mode scans] at reported
      obtain ⟨met, found, rfl⟩ := List.mem_map.1 reported
      exact LexicalError.onItsLine_of_mem_scan found
  refine ⟨line, ?_⟩
  have early : error.span.OnItsLine source ↔ error.linesEarly source = 0 := by
    rw [Span.OnItsLine]
    omega
  rw [early]
  -- Only the end of the input can be told of on too early a line.
  by_cases ends : ∃ span, error = .syntactic (.unexpectedEnd span)
  case pos =>
    obtain ⟨span, rfl⟩ := ends
    rw [Error.linesEarly, Token.lineBreaksInLast_eq_zero]
    simp
  case neg =>
    have none : error.linesEarly source = 0 := by
      rw [Error.linesEarly]
      exact fun span same => ends ⟨span, same⟩
    simp [none, ends]

/-- A stray brace is on its line behind a string over two lines, and so is the end behind a word. -/
theorem errors_on_their_lines_but_ends_of_strings_behind :
    let errors := (Grammar.parse .statement "\"a\nb\"; \x7d\nprint").errors
    (.syntactic (.unexpectedToken ⟨.punctuator .rightBrace, ⟨2, 7, 1⟩⟩) ∈ errors ∧
      Span.OnItsLine "\"a\nb\"; \x7d\nprint" ⟨2, 7, 1⟩) ∧
    .syntactic (.unexpectedEnd ⟨3, 14, 0⟩) ∈ errors ∧
      Span.OnItsLine "\"a\nb\"; \x7d\nprint" ⟨3, 14, 0⟩ := by
  intro errors
  have brace : .syntactic (.unexpectedToken ⟨.punctuator .rightBrace, ⟨2, 7, 1⟩⟩) ∈ errors := by
    decide +kernel
  have ending : .syntactic (.unexpectedEnd ⟨3, 14, 0⟩) ∈ errors := by decide +kernel
  refine ⟨⟨brace, ?_⟩, ending, ?_⟩
  · refine (errors_on_their_lines_but_ends_of_strings .statement _ brace).2.2 ?_
    rintro ⟨⟨_, same⟩, _⟩
    cases same
  · refine (errors_on_their_lines_but_ends_of_strings .statement _ ending).2.2 ?_
    rintro ⟨_, content, span, last, _⟩
    have word : (scan "\"a\nb\"; \x7d\nprint").produced.getLast? =
        some ⟨.keyword .printWord, ⟨3, 9, 5⟩⟩ := by decide +kernel
    cases word.symm.trans last

/-- The end behind the string in `"a`, line break, `b"` is reported on the first line. -/
theorem not_every_syntax_error_on_its_line :
    ¬ ∀ mode source, (scan source).errors = [] →
      ∀ error ∈ (Grammar.parse mode source).errors, error.span.OnItsLine source := by
  intro exact
  have reported : .syntactic (.unexpectedEnd ⟨1, 5, 0⟩) ∈
      (Grammar.parse .statement "\"a\nb\"").errors := by decide +kernel
  have line := exact .statement "\"a\nb\"" (by decide +kernel) _ reported
  revert line
  decide +kernel

end TreeWalk
