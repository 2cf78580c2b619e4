import TreeWalk.Proofs.Evaluation.Blame
import TreeWalk.Proofs.Token.Tiling

/-!
# Errors point at their text

The span of every error that a session reports lies in the source, over the very text that
the error is about. The errors that are about an end have an empty span there.
-/

namespace TreeWalk

/-- A character that begins no token is under its span; a quote is missed at the end of the
source. -/
def LexicalError.PointsAt (source : String) : LexicalError → Prop
  | unexpectedCharacter character span => span.Covers source character.toString
  | unterminatedString _ span => span.Covers source "" ∧ span.offset = source.utf8ByteSize

/-- The token that was found is under its span; an end is met behind the last token. -/
def SyntaxError.PointsAt (source : String) : SyntaxError → Prop
  | unexpectedToken found => found.span.Covers source found.kind.lexeme
  | missingToken _ found => found.span.Covers source found.kind.lexeme
  | unexpectedEnd span =>
      span.Covers source "" ∧
        ∃ last, (scan source).produced.getLast? = some last ∧ span = last.span.after

/-- The name of the variable, the operator, the `if` of a condition, or the keyword of the
construct is under the span. -/
def RuntimeError.PointsAt (source : String) : RuntimeError → Prop
  | undefinedVariable name span => span.Covers source name
  | typeMismatch operation _ span => span.Covers source operation.text
  | notImplemented construct span =>
      ∃ word, construct.keyword? = some word ∧ span.Covers source word.text

/-- The span of the error is over the text that it is about. -/
def Error.PointsAt (source : String) : Error → Prop
  | lexical error => error.PointsAt source
  | syntactic error => error.PointsAt source
  | runtime error => error.PointsAt source

variable {source text : String} {span : Span}

/-- A span over a text of the source ends within the source. -/
theorem Span.Covers.finish_le (covers : span.Covers source text) :
    span.finish ≤ source.utf8ByteSize := by
  obtain ⟨before, after, rfl, offset, length⟩ := covers
  rw [finish, offset, length, String.utf8ByteSize_append, String.utf8ByteSize_append]
  exact Nat.le_add_right _ _

/-- Just past a text of the source the source has the empty text. -/
theorem Span.Covers.after (covers : span.Covers source text) : span.after.Covers source "" := by
  obtain ⟨before, after, rfl, offset, length⟩ := covers
  refine ⟨before ++ text, after, by rw [String.append_empty], ?_, rfl⟩
  rw [Span.after, finish, offset, length, String.utf8ByteSize_append]

/-- What points at a text lies in the source. -/
theorem Error.PointsAt.finish_le {error : Error} (points : error.PointsAt source) :
    error.span.finish ≤ source.utf8ByteSize := by
  rcases error with error | error | error
  case lexical =>
    cases error with
    | unexpectedCharacter => exact Span.Covers.finish_le points
    | unterminatedString => exact points.1.finish_le
  case syntactic =>
    cases error with
    | unexpectedToken | missingToken => exact Span.Covers.finish_le points
    | unexpectedEnd => exact points.1.finish_le
  case runtime =>
    cases error with
    | undefinedVariable | typeMismatch => exact Span.Covers.finish_le points
    | notImplemented =>
        obtain ⟨_, _, covers⟩ := points
        exact covers.finish_le

/-- The errors of a scan point at their text. -/
theorem LexicalError.pointsAt_of_mem_scan {error : LexicalError}
    (met : error ∈ (scan source).errors) : error.PointsAt source := by
  cases error with
  | unexpectedCharacter character span =>
      exact ((tiled_scan source).shows_unexpectedCharacter met).covers
  | unterminatedString content span =>
      obtain ⟨front, others, placed⟩ := List.append_of_mem met
      obtain ⟨_, rfl, _⟩ := (tiled_scan source).of_unterminatedString placed
      have offset : ((Place.advance {} source.toList).point).offset = source.utf8ByteSize := by
        simp [Place.point, Place.advance, Place.byteLength_toList]
      exact ⟨⟨source, "", by simp, offset, rfl⟩, offset⟩

/-- The errors that reading a program reports point at their text. -/
theorem SyntaxError.pointsAt_of_mem_program {mode : Mode} {error : SyntaxError}
    (met : error ∈ (Grammar.program mode (scan source).produced).errors) :
    error.PointsAt source := by
  have stands := Grammar.standsIn_of_mem_program met
  cases error with
  | unexpectedToken | missingToken => exact (covers_of_mem_scan stands).2
  | unexpectedEnd span =>
      obtain ⟨last, final, rfl⟩ := stands
      exact ⟨(covers_of_mem_scan (List.mem_of_getLast? final)).2.after, last, final, rfl⟩

/-- A runtime error on account of a token of the source points at that token. -/
theorem RuntimeError.Blames.pointsAt {error : RuntimeError}
    (blames : error.Blames (scan source).produced) : error.PointsAt source := by
  cases blames with
  | name present => exact (covers_of_mem_scan present).2
  | operation present =>
      rw [PointsAt, ← Operation.lexeme_kind]
      exact (covers_of_mem_scan present).2
  | construct begins present => exact ⟨_, begins, (covers_of_mem_scan present).2⟩

/-- Every error points at the text that it is about. Whatever the session and the source,
the span of each reported error lies in the source, over that text. -/
theorem errors_point_at_their_text (session : Session) (source : String) {error : Error}
    (reported : error ∈ (session.evaluate source).1.errors) :
    error.span.finish ≤ source.utf8ByteSize ∧ error.PointsAt source := by
  suffices points : error.PointsAt source from ⟨points.finish_le, points⟩
  rw [Session.evaluate] at reported
  split at reported
  next clean =>
    obtain ⟨stopped, ran, rfl⟩ : ∃ stopped,
        stopped ∈ (Node.run none (Grammar.parse session.mode source).produced
          session.scopes).error ∧ Error.runtime stopped = error := by
      simpa [Session.execute] using reported
    refine RuntimeError.Blames.pointsAt (Node.allowed_of_run ?_ none session.scopes ran)
    rw [Grammar.parse]
    split
    · exact (Grammar.stretches_nodes session.mode _ _).failsOnly_eval (List.Subset.refl _)
    · simp
  next =>
    rw [Grammar.parse] at reported
    split at reported
    · obtain ⟨met, found, rfl⟩ := List.mem_map.1 reported
      exact SyntaxError.pointsAt_of_mem_program found
    · obtain ⟨met, found, rfl⟩ := List.mem_map.1 reported
      exact LexicalError.pointsAt_of_mem_scan found

/-- Negating nothing fails at the minus sign, behind a comment and a line break. -/
theorem errors_point_at_their_text_minus :
    Error.runtime (.typeMismatch (.unary .negate) .number ⟨2, 7, 1⟩) ∈
        (Session.evaluate { mode := .statement } "// é\n -nil;").1.errors ∧
      Span.Covers ⟨2, 7, 1⟩ "// é\n -nil;" "-" := by
  have reported : Error.runtime (.typeMismatch (.unary .negate) .number ⟨2, 7, 1⟩) ∈
      (Session.evaluate { mode := .statement } "// é\n -nil;").1.errors := by decide +kernel
  exact ⟨reported, (errors_point_at_their_text _ _ reported).2⟩

end TreeWalk
