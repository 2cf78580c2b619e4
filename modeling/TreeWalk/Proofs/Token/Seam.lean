import TreeWalk.Proofs.Syntax.Relocation
import TreeWalk.Proofs.Token.Tiling

/-!
# Scanning across a line break

Only a string goes on over a line break that follows it. Where no string is left open in front
of one, the text behind it is scanned as if it stood alone, with every span moved. A carriage
return in front of the line break makes no difference.
-/

namespace TreeWalk

/-- The span further down in a source: later by so many lines and so many bytes. -/
def Span.shift (lines bytes : Nat) (span : Span) : Span where
  line := span.line + lines
  offset := span.offset + bytes
  length := span.length

/-- The empty span just past the end moves along. -/
theorem Span.after_shift (lines bytes : Nat) (span : Span) :
    (span.shift lines bytes).after = span.after.shift lines bytes := by
  simp [after, shift, finish, Nat.add_right_comm]

/-- The place further down in a source: later by so many lines and so many bytes. -/
def Place.shift (lines bytes : Nat) (place : Place) : Place where
  line := place.line + lines
  offset := place.offset + bytes

namespace Place

variable (lines bytes : Nat) (place : Place) (text : List Char)

/-- To pass a text and then shift is to shift and then pass the text. -/
theorem advance_shift :
    (place.shift lines bytes).advance text = (place.advance text).shift lines bytes := by
  simp [advance, shift, Nat.add_right_comm]

/-- What is reported at a shifted place is shifted. -/
theorem point_shift : (place.shift lines bytes).point = place.point.shift lines bytes := rfl

/-- Behind a text and a line break the start of a source comes later by both. -/
theorem advance_lineBreak :
    Place.advance {} (text ++ ['\n']) =
      Place.shift (text.count '\n' + 1) (byteLength text + 1) {} := by
  have size : Char.utf8Size '\n' = 1 := rfl
  simp [advance, shift, size, Nat.add_comm]

end Place

namespace Piece

variable {piece : Piece} {source more : List Char}

/-- A piece that goes on over a line break is a string, open in front of it. -/
theorem Lexical.exists_quote (lexical : piece.Lexical) (text : piece.text = source ++ '\n' :: more)
    (nonempty : source ≠ []) : ∃ content, '"' ∉ content ∧ source = '"' :: content := by
  obtain ⟨head, tail, rfl⟩ := List.exists_cons_of_ne_nil nonempty
  rcases lexical.of_space (.inr rfl) (by simp [text]) with
    ⟨content, quoteless, rfl | rfl⟩ | ⟨trivia, separates⟩
  · obtain ⟨rfl, rest⟩ := List.cons.inj text
    refine ⟨tail, fun quote => quoteless ?_, rfl⟩
    rcases List.append_eq_append_iff.1 rest with ⟨between, _, closing⟩ | ⟨between, whole, _⟩
    · rcases between with _ | ⟨other, between⟩ <;> simp at closing
    · rw [whole]
      exact List.mem_append_left _ quote
  · obtain ⟨rfl, rfl⟩ := List.cons.inj text
    exact ⟨tail, fun quote => quoteless (List.mem_append_left _ quote), rfl⟩
  · have present : '\n' ∈ piece.text := by simp [text]
    cases lexical with
    | comment within => simp [within] at present
    | lineBreak => simp at text
    | blank _ blanks => cases blanks _ present
    | _ => cases separates

/-- A piece in front of a line break stands in front of it already, or in the string that is
open there. -/
theorem Lexical.prefix_or_open (lexical : piece.Lexical)
    (here : piece.text <+: source ++ '\n' :: more) (nonempty : source ≠ []) :
    piece.text <+: source ∨ ∃ content, '"' ∉ content ∧ source = '"' :: content := by
  rcases List.prefix_or_prefix_of_prefix here (List.prefix_append source _) with before | beyond
  · exact .inl before
  · obtain ⟨behind, whole⟩ := beyond
    obtain ⟨after, same⟩ := here
    rw [← whole, List.append_assoc, List.append_cancel_left_eq] at same
    cases behind with
    | nil => exact .inl ⟨[], by rw [← whole, List.append_nil, List.append_nil]⟩
    | cons head behind =>
        obtain ⟨rfl, _⟩ := List.cons.inj same
        exact .inr (lexical.exists_quote whole.symm nonempty)

/-- The longest piece is no longer with a line break behind the source, unless it is a string
that is still open there. -/
theorem Longest.append_lineBreak (longest : piece.Longest source)
    (closed : ∀ content, piece.finding ≠ .openString content) (more : List Char) :
    piece.Longest (source ++ '\n' :: more) := by
  have nonempty : source ≠ [] := by
    rintro rfl
    exact longest.lexical.text_ne_nil (List.prefix_nil.1 longest.here)
  refine ⟨longest.lexical, longest.here.trans (List.prefix_append _ _), ?_⟩
  intro other lexical here
  rcases lexical.prefix_or_open here nonempty with before | ⟨content, quoteless, rfl⟩
  · exact longest.longest other lexical before
  · have bound := longest.longest _ (.openString quoteless) (List.prefix_refl _)
    have whole : piece.text = '"' :: content := longest.here.eq_of_length_le bound
    have same := longest.lexical.eq_of_text_eq (.openString quoteless) whole
    exact absurd (congrArg Piece.finding same) (closed _)

/-- A line break is the longest piece at its head. -/
theorem longest_lineBreak (more : List Char) :
    Longest ⟨.separator .lineBreak, ['\n']⟩ ('\n' :: more) := by
  have taken : first '\n' more = ⟨.separator .lineBreak, ['\n']⟩ := rfl
  rw [← taken]
  apply longest_first
  rw [taken]
  exact .lineBreak

/-- A carriage return at the end of a source is the longest piece there. -/
theorem longest_return : Longest ⟨.separator .blank, ['\r']⟩ ['\r'] := by
  have taken : first '\r' [] = ⟨.separator .blank, ['\r']⟩ := rfl
  rw [← taken]
  apply longest_first
  rw [taken]
  exact .blank (by simp) (by simp [isBlank])

/-- Where no piece begins, none begins with a line break behind the source. -/
theorem not_prefix_append_lineBreak {character : Char} {rest : List Char}
    (strange : ∀ piece : Piece, piece.Lexical → ¬ piece.text <+: character :: rest)
    (lexical : piece.Lexical) : ¬ piece.text <+: character :: rest ++ '\n' :: more := by
  intro here
  rcases lexical.prefix_or_open here (List.cons_ne_nil _ _) with before | ⟨content, quoteless, same⟩
  · exact strange piece lexical before
  · rw [same] at strange
    exact strange _ (.openString quoteless) (List.prefix_refl _)

/-- A piece that ends in a carriage return is as well one without it, and either separates tokens
or is a string that is still open. -/
theorem Lexical.exists_shorter (lexical : piece.Lexical) (text : piece.text = source ++ ['\r'])
    (nonempty : source ≠ []) :
    ∃ shorter : Piece, shorter.Lexical ∧ shorter.text = source ∧
      ((∃ content, shorter.finding = .openString content) ∨
        ∃ trivia, shorter.finding = .separator trivia ∧ piece.finding = .separator trivia) := by
  obtain ⟨head, tail, rfl⟩ := List.exists_cons_of_ne_nil nonempty
  rcases lexical.of_space (.inl rfl : isBlank '\r' ∨ '\r' = '\n') (by simp [text]) with
    ⟨content, quoteless, rfl | rfl⟩ | ⟨trivia, separates⟩
  · have ends := (List.append_inj' text rfl).2
    simp at ends
  · obtain ⟨rfl, rfl⟩ := List.cons.inj text
    exact ⟨_, .openString fun quote => quoteless (List.mem_append_left _ quote), rfl, .inl ⟨_, rfl⟩⟩
  · cases lexical with
    | @comment content within =>
        obtain ⟨rfl, behind⟩ := List.cons.inj text
        cases tail with
        | nil => simp at behind
        | cons second inside =>
            obtain ⟨rfl, rfl⟩ := List.cons.inj behind
            exact ⟨_, .comment fun present => within (List.mem_append_left _ present), rfl,
              .inr ⟨_, rfl, rfl⟩⟩
    | lineBreak => simp at text
    | @blank whole _ blanks =>
        cases text
        exact ⟨_, .blank nonempty fun c present => blanks c (List.mem_append_left _ present), rfl,
          .inr ⟨_, rfl, rfl⟩⟩
    | _ => cases separates

/-- With a carriage return behind the source the longest piece is the same, or it separates tokens,
is all of the source and takes the carriage return too; unless it is a string that is open. -/
theorem Longest.append_return (longest : piece.Longest source)
    (closed : ∀ content, piece.finding ≠ .openString content) :
    piece.Longest (source ++ ['\r']) ∨
      piece.text = source ∧ ∃ trivia, piece.finding = .separator trivia ∧
        Longest ⟨.separator trivia, source ++ ['\r']⟩ (source ++ ['\r']) := by
  have nonempty : source ≠ [] := by
    rintro rfl
    exact longest.lexical.text_ne_nil (List.prefix_nil.1 longest.here)
  by_cases longer : ∃ other : Piece, other.Lexical ∧ other.text = source ++ ['\r']
  · obtain ⟨⟨finding, text⟩, lexical, rfl⟩ := longer
    obtain ⟨shorter, lexicalShorter, same, kinds⟩ := lexical.exists_shorter rfl nonempty
    have bound := longest.longest shorter lexicalShorter (same ▸ List.prefix_refl _)
    rw [same] at bound
    have whole : piece.text = source := longest.here.eq_of_length_le bound
    obtain rfl := longest.lexical.eq_of_text_eq lexicalShorter (whole.trans same.symm)
    rcases kinds with ⟨content, opened⟩ | ⟨trivia, separates, rfl⟩
    · exact absurd opened (closed content)
    · exact .inr ⟨whole, trivia, separates, lexical, List.prefix_refl _,
        fun other _ here => here.length_le⟩
  · refine .inl ⟨longest.lexical, longest.here.trans (List.prefix_append _ _), ?_⟩
    intro other lexical here
    rcases List.prefix_concat_iff.1 here with whole | before
    · exact absurd ⟨other, lexical, whole⟩ longer
    · exact longest.longest other lexical before

/-- A carriage return at the end of the source begins no piece where none began. -/
theorem not_prefix_append_return {character : Char} {rest : List Char}
    (strange : ∀ piece : Piece, piece.Lexical → ¬ piece.text <+: character :: rest)
    (lexical : piece.Lexical) : ¬ piece.text <+: character :: rest ++ ['\r'] := by
  intro here
  rcases List.prefix_concat_iff.1 here with whole | before
  · obtain ⟨shorter, lexicalShorter, same, _⟩ := lexical.exists_shorter whole (List.cons_ne_nil _ _)
    exact strange shorter lexicalShorter (same ▸ List.prefix_refl _)
  · exact strange piece lexical before

end Piece

namespace Munched

variable {place : Place} {source more : List Char} {tokens moreTokens : List Token}
  {errors moreErrors : List LexicalError}

/-- What is munched further down in a source is the same at shifted spans. -/
theorem shift (lines bytes : Nat) (munched : Munched place source tokens errors) :
    Munched (place.shift lines bytes) source
      (tokens.map (Token.relocate (Span.shift lines bytes)))
      (errors.map (LexicalError.relocate (Span.shift lines bytes))) := by
  induction munched with
  | finish => exact .finish
  | token longest _ inductionHypothesis =>
      exact .token longest (by rwa [Place.advance_shift])
  | separator longest _ inductionHypothesis =>
      exact .separator longest (by rwa [Place.advance_shift])
  | openString longest _ inductionHypothesis =>
      rw [List.map_cons, LexicalError.relocate, ← Place.point_shift, ← Place.advance_shift]
      exact .openString longest (by rwa [Place.advance_shift])
  | stray strange _ inductionHypothesis =>
      exact .stray strange (by rwa [Place.advance_shift])

/-- Two texts with a line break between them are munched one after the other, if the first
leaves no string open. -/
theorem append_lineBreak (munched : Munched place source tokens errors)
    (closed : ∀ content span, .unterminatedString content span ∉ errors)
    (behind : Munched (place.advance (source ++ ['\n'])) more moreTokens moreErrors) :
    Munched place (source ++ '\n' :: more) (tokens ++ moreTokens) (errors ++ moreErrors) := by
  induction munched with
  | finish =>
      -- Behind the first text its line break is a piece of its own.
      change Munched _ (['\n'] ++ more) _ _
      exact .separator (Piece.longest_lineBreak more) behind
  | token longest _ inductionHypothesis =>
      have longer := longest.append_lineBreak (by simp) more
      rw [List.append_assoc] at behind longer ⊢
      rw [Place.advance_append] at behind
      exact .token longer (inductionHypothesis closed behind)
  | separator longest _ inductionHypothesis =>
      have longer := longest.append_lineBreak (by simp) more
      rw [List.append_assoc] at behind longer ⊢
      rw [Place.advance_append] at behind
      exact .separator longer (inductionHypothesis closed behind)
  | openString longest _ inductionHypothesis =>
      exact absurd (List.mem_cons_self) (closed _ _)
  | @stray place character rest _ _ strange _ inductionHypothesis =>
      rw [← List.singleton_append, List.append_assoc, Place.advance_append] at behind
      rw [List.cons_append]
      have closedBehind := fun content span present =>
        closed content span (List.mem_cons_of_mem _ present)
      exact .stray (fun piece => Piece.not_prefix_append_lineBreak strange)
        (inductionHypothesis closedBehind behind)

/-- A carriage return behind a text changes nothing, if the text leaves no string open. -/
theorem append_return (munched : Munched place source tokens errors)
    (closed : ∀ content span, .unterminatedString content span ∉ errors) :
    Munched place (source ++ ['\r']) tokens errors := by
  induction munched with
  | @finish place =>
      have munched : Munched place (['\r'] ++ []) [] [] := .separator Piece.longest_return .finish
      exact munched
  | token longest _ inductionHypothesis =>
      rcases longest.append_return (by simp) with same | ⟨_, _, separates, _⟩
      · rw [List.append_assoc] at same ⊢
        exact .token same (inductionHypothesis closed)
      · cases separates
  | @separator place _ text rest _ _ longest behind inductionHypothesis =>
      rcases longest.append_return (by simp) with same | ⟨whole, _, separates, longer⟩
      · rw [List.append_assoc] at same ⊢
        exact .separator same (inductionHypothesis closed)
      · cases separates
        obtain rfl : rest = [] := List.self_eq_append_right.1 whole
        obtain ⟨rfl, rfl⟩ := behind.eq_ofPieces
        rw [Piece.pieces, List.append_nil]
        rw [List.append_nil] at longer
        have munched : Munched place (text ++ ['\r'] ++ []) [] [] :=
          .separator (by rwa [List.append_nil]) .finish
        rwa [List.append_nil] at munched
  | openString longest _ inductionHypothesis =>
      exact absurd (List.mem_cons_self) (closed _ _)
  | stray strange _ inductionHypothesis =>
      have closedBehind := fun content span present =>
        closed content span (List.mem_cons_of_mem _ present)
      exact .stray (fun piece => Piece.not_prefix_append_return strange)
        (inductionHypothesis closedBehind)

end Munched

/-- Two texts with a line break between them are scanned one after the other, if the first
leaves no string open; what belongs to the second has its spans shifted. -/
theorem scan_append_lineBreak {first : String} (second : String)
    (closed : ∀ content span, .unterminatedString content span ∉ (scan first).errors) :
    scan (first ++ "\n" ++ second) =
      ⟨(scan first).produced ++ (scan second).produced.map (Token.relocate
          (Span.shift (first.toList.count '\n' + 1) (first.utf8ByteSize + 1))),
        (scan first).errors ++ (scan second).errors.map (LexicalError.relocate
          (Span.shift (first.toList.count '\n' + 1) (first.utf8ByteSize + 1)))⟩ := by
  have behind := (munched_scan second).shift (first.toList.count '\n' + 1) (first.utf8ByteSize + 1)
  rw [← Place.byteLength_toList, ← Place.advance_lineBreak] at behind
  have whole := (munched_scan first).append_lineBreak closed behind
  have text : (first ++ "\n" ++ second).toList = first.toList ++ '\n' :: second.toList := by simp
  obtain ⟨tokens, errors⟩ := whole.eq_ofPieces
  rw [scan, text, ← tokens, ← errors, ← Place.byteLength_toList]

/-- A string that is left open is reported at the end of the source. -/
theorem offset_of_unterminatedString {source content : String} {span : Span}
    (present : .unterminatedString content span ∈ (scan source).errors) :
    span.offset = source.utf8ByteSize := by
  obtain ⟨front, others, split⟩ := List.append_of_mem present
  obtain ⟨_, placed, _⟩ := (tiled_scan source).of_unterminatedString split
  rw [placed]
  simp [Place.point, Place.advance, Place.byteLength_toList]

/-- Scanning is compositional at a line break exactly where no string is open in front of it. Then
the tokens and the errors are those of the first text and behind them those of the second, with
their kinds, payloads and lengths, later by the bytes and the line breaks of the first text and of
the one between. An open string goes on over the line break instead, and is missed further down if
it is missed at all. -/
theorem scan_composes_iff_closed (first second : String) :
    scan (first ++ "\n" ++ second) =
        ⟨(scan first).produced ++ (scan second).produced.map (Token.relocate
            (Span.shift (first.toList.count '\n' + 1) (first.utf8ByteSize + 1))),
          (scan first).errors ++ (scan second).errors.map (LexicalError.relocate
            (Span.shift (first.toList.count '\n' + 1) (first.utf8ByteSize + 1)))⟩ ↔
      ∀ content span, .unterminatedString content span ∉ (scan first).errors := by
  refine ⟨fun composed content span opened => ?_, scan_append_lineBreak second⟩
  have reported : .unterminatedString content span ∈ (scan (first ++ "\n" ++ second)).errors := by
    rw [composed]
    exact List.mem_append_left _ opened
  have here := offset_of_unterminatedString opened
  have there := offset_of_unterminatedString reported
  have single : "\n".utf8ByteSize = 1 := rfl
  rw [here, String.utf8ByteSize_append, String.utf8ByteSize_append, single] at there
  omega

/-- A text with a carriage return behind it is scanned as without, if it leaves no string open. -/
theorem scan_append_return {source : String}
    (closed : ∀ content span, .unterminatedString content span ∉ (scan source).errors) :
    scan (source ++ "\r") = scan source := by
  have munched := (munched_scan source).append_return closed
  have text : (source ++ "\r").toList = source.toList ++ ['\r'] := by simp
  obtain ⟨tokens, errors⟩ := munched.eq_ofPieces
  rw [scan, text, ← tokens, ← errors]

end TreeWalk
