import TreeWalk.Proofs.Token.Munch

/-!
# Tokens, errors and gaps tile the source

Every byte of a source belongs to one token, to one error or to a gap between them, and they
stand in order. What a token or an unexpected character says of its text is what the source
has under its span.
-/

namespace TreeWalk

/-- The source has the text under the span. Both ends of the span are between characters. -/
def Span.Covers (span : Span) (source text : String) : Prop :=
  ∃ before after : String, source = before ++ text ++ after ∧
    span.offset = before.utf8ByteSize ∧ span.length = text.utf8ByteSize

/-- A text between tokens, in front of what follows it: blanks, a line break, or a comment
that ends at a line break or with the source. -/
inductive Gap : List Char → List Char → Prop where
  | blanks {text rest : List Char} (nonempty : text ≠ []) (blank : ∀ c ∈ text, Piece.isBlank c) :
      Gap text rest
  | lineBreak {rest : List Char} : Gap ['\n'] rest
  | comment {content rest : List Char} (within : '\n' ∉ content)
      (complete : ∀ next ∈ rest.head?, next = '\n') : Gap ('/' :: '/' :: content) rest

/-- Tokens and errors that tile a text from a place on, with gaps between them. A string that
no quote closes takes all the rest, and its error stands at the end. -/
inductive Tiled : Place → List Char → List Token → List LexicalError → Prop where
  | finish {place : Place} : Tiled place [] [] []
  | gap {place : Place} {text rest : List Char} {tokens errors} (between : Gap text rest)
      (behind : Tiled (place.advance text) rest tokens errors) :
      Tiled place (text ++ rest) tokens errors
  | token {place : Place} {kind : Kind} {text rest : List Char} {tokens errors}
      (nonempty : text ≠ []) (spelled : kind.lexeme = String.ofList text)
      (behind : Tiled (place.advance text) rest tokens errors) :
      Tiled place (text ++ rest) (⟨kind, place.span text⟩ :: tokens) errors
  | stray {place : Place} {character : Char} {rest : List Char} {tokens errors}
      (behind : Tiled (place.advance [character]) rest tokens errors) :
      Tiled place (character :: rest) tokens
        (.unexpectedCharacter character (place.span [character]) :: errors)
  | openString {place : Place} {content : List Char} (quoteless : '"' ∉ content) :
      Tiled place ('"' :: content) []
        [.unterminatedString (String.ofList content) (place.advance ('"' :: content)).point]

/-- A string has the bytes of its characters. -/
theorem Place.utf8ByteSize_ofList (text : List Char) :
    (String.ofList text).utf8ByteSize = byteLength text := by
  induction text with
  | nil => rfl
  | cons head tail inductionHypothesis =>
      rw [← List.singleton_append, String.ofList_append, String.utf8ByteSize_append,
        inductionHypothesis]
      simp

/-- The characters of a string have its bytes. -/
theorem Place.byteLength_toList (text : String) : byteLength text.toList = text.utf8ByteSize := by
  rw [← utf8ByteSize_ofList, String.ofList_toList]

/-- A text with something in it has bytes. -/
theorem Place.byteLength_pos {text : List Char} (nonempty : text ≠ []) : 0 < byteLength text := by
  obtain ⟨head, tail, rfl⟩ := List.exists_cons_of_ne_nil nonempty
  exact Nat.add_pos_left (Char.utf8Size_pos head) _

/-- The text stands in a source that begins at the place, with the span. -/
def Place.Shows (place : Place) (source text : List Char) (span : Span) : Prop :=
  ∃ before after, source = before ++ text ++ after ∧ span = (place.advance before).span text

namespace Place.Shows

variable {place : Place} {source rest text : List Char} {span : Span}

/-- A text at the head of a source stands there. -/
theorem here (place : Place) (text rest : List Char) :
    place.Shows (text ++ rest) text (place.span text) :=
  ⟨[], rest, rfl, by simp [advance]⟩

/-- What stands in the rest stands in the whole. -/
theorem behind (front : List Char) (shows : (place.advance front).Shows rest text span) :
    place.Shows (front ++ rest) text span := by
  obtain ⟨before, after, rfl, placed⟩ := shows
  exact ⟨front ++ before, after, by simp, by rw [placed, advance_append]⟩

/-- What stands in a source begins where the source does, or behind. -/
theorem offset_le (shows : place.Shows source text span) : place.offset ≤ span.offset := by
  obtain ⟨before, after, _, rfl⟩ := shows
  exact Nat.le_add_right place.offset _

/-- A span is as long as its text. -/
theorem length_eq (shows : place.Shows source text span) : span.length = byteLength text := by
  obtain ⟨before, after, _, rfl⟩ := shows
  rfl

/-- A text that stands in a whole source has its span there. -/
theorem covers {source : String} (shows : Place.Shows {} source.toList text span) :
    span.Covers source (String.ofList text) := by
  obtain ⟨before, after, whole, rfl⟩ := shows
  refine ⟨String.ofList before, String.ofList after, ?_, ?_, ?_⟩
  · rw [← String.ofList_append, ← String.ofList_append, ← whole, String.ofList_toList]
  · simp [advance, Place.span, utf8ByteSize_ofList]
  · simp [Place.span, utf8ByteSize_ofList]

end Place.Shows

namespace Piece

variable {text rest : List Char}

/-- The lexeme of a token is the text that it was taken from. -/
theorem Lexical.lexeme_eq {kind : Kind} (lexical : Lexical ⟨.token kind, text⟩) :
    kind.lexeme = String.ofList text := by
  cases lexical with
  | string quoteless =>
      rw [Kind.lexeme, ← String.toList_inj]
      simp
  | mark mark => rw [String.ofList_toList, Kind.lexeme]
  | reserved word => rw [String.ofList_toList, Kind.lexeme]
  | number | identifier => rfl

/-- What separates tokens is a gap. -/
theorem Longest.gap {trivia : Trivia} (longest : Longest ⟨.separator trivia, text⟩ (text ++ rest)) :
    Gap text rest := by
  cases longest.lexical with
  | blank nonempty blanks => exact .blanks nonempty blanks
  | lineBreak => exact .lineBreak
  | @comment content within =>
      refine .comment within fun next found => ?_
      obtain ⟨after, rfl⟩ := List.head?_eq_some_iff.1 found
      by_contra other
      -- Otherwise the comment would go on over that character.
      have longer : Lexical ⟨.separator .comment, '/' :: '/' :: (content ++ [next])⟩ :=
        .comment (by simpa [within] using Ne.symm other)
      have bound := longest.longest _ longer ⟨after, by simp⟩
      simp only [List.length_cons, List.length_append, List.length_nil] at bound
      omega

/-- A string that no quote closes takes all the rest. -/
theorem Longest.openString_eq {content : String}
    (longest : Longest ⟨.openString content, text⟩ (text ++ rest)) :
    rest = [] ∧ ∃ inside, '"' ∉ inside ∧ text = '"' :: inside ∧ content = String.ofList inside := by
  cases longest.lexical with
  | @openString inside quoteless =>
      refine ⟨?_, inside, quoteless, rfl, rfl⟩
      cases rest with
      | nil => rfl
      | cons next after =>
          -- Otherwise the string would go on over that character, or end with it.
          by_cases quote : next = '"'
          · have bound := longest.longest _ (.string quoteless) ⟨after, by simp [quote]⟩
            simp only [List.length_cons, List.length_append, List.length_nil] at bound
            omega
          · have longer : Lexical ⟨.openString (String.ofList (inside ++ [next])),
                '"' :: (inside ++ [next])⟩ := .openString (by simpa [quoteless] using Ne.symm quote)
            have bound := longest.longest _ longer ⟨after, by simp⟩
            simp only [List.length_cons, List.length_append, List.length_nil] at bound
            omega

end Piece

/-- What maximal munch takes tiles the source. -/
theorem Munched.tiled {place : Place} {source : List Char} {tokens : List Token}
    {errors : List LexicalError} (munched : Munched place source tokens errors) :
    Tiled place source tokens errors := by
  induction munched with
  | finish => exact .finish
  | token longest _ inductionHypothesis =>
      exact .token longest.lexical.text_ne_nil longest.lexical.lexeme_eq inductionHypothesis
  | separator longest _ inductionHypothesis => exact .gap longest.gap inductionHypothesis
  | openString longest behind _ =>
      obtain ⟨rfl, inside, quoteless, rfl, rfl⟩ := longest.openString_eq
      obtain ⟨rfl, rfl⟩ := behind.eq_ofPieces
      rw [Piece.pieces, List.append_nil]
      exact .openString quoteless
  | stray _ _ inductionHypothesis => exact .stray inductionHypothesis

namespace Tiled

variable {place : Place} {source : List Char} {tokens : List Token} {errors : List LexicalError}

/-- A token stands in the text as its lexeme. -/
theorem shows_token (tiled : Tiled place source tokens errors) {token : Token}
    (present : token ∈ tokens) :
    ∃ text, text ≠ [] ∧ token.kind.lexeme = String.ofList text ∧
      place.Shows source text token.span := by
  induction tiled with
  | finish => cases present
  | @gap _ front _ _ _ _ _ inductionHypothesis =>
      obtain ⟨text, nonempty, spelled, shows⟩ := inductionHypothesis present
      exact ⟨text, nonempty, spelled, shows.behind front⟩
  | @token _ _ front _ _ _ nonempty spelled _ inductionHypothesis =>
      cases present with
      | head => exact ⟨front, nonempty, spelled, .here _ _ _⟩
      | tail _ later =>
          obtain ⟨text, nonempty, spelled, shows⟩ := inductionHypothesis later
          exact ⟨text, nonempty, spelled, shows.behind front⟩
  | @stray _ character _ _ _ _ inductionHypothesis =>
      obtain ⟨text, nonempty, spelled, shows⟩ := inductionHypothesis present
      exact ⟨text, nonempty, spelled, shows.behind [character]⟩
  | openString => cases present

/-- An unexpected character stands in the text. -/
theorem shows_unexpectedCharacter (tiled : Tiled place source tokens errors) {character : Char}
    {span : Span} (present : .unexpectedCharacter character span ∈ errors) :
    place.Shows source [character] span := by
  induction tiled with
  | finish => cases present
  | @gap _ front _ _ _ _ _ inductionHypothesis => exact (inductionHypothesis present).behind front
  | @token _ _ front _ _ _ _ _ _ inductionHypothesis =>
      exact (inductionHypothesis present).behind front
  | @stray _ other _ _ _ _ inductionHypothesis =>
      cases present with
      | head => exact .here _ [character] _
      | tail _ later => exact (inductionHypothesis later).behind [other]
  | openString => simp at present

/-- Each token ends before the next one starts. -/
theorem pairwise_tokens (tiled : Tiled place source tokens errors) :
    tokens.Pairwise fun first second => first.span.finish ≤ second.span.offset := by
  induction tiled with
  | finish => exact .nil
  | gap _ _ inductionHypothesis => exact inductionHypothesis
  | token _ _ behind inductionHypothesis =>
      refine .cons (fun later present => ?_) inductionHypothesis
      obtain ⟨_, _, _, shows⟩ := behind.shows_token present
      exact shows.offset_le
  | stray _ inductionHypothesis => exact inductionHypothesis
  | openString => exact .nil

/-- A string that no quote closes is the last error and takes all the rest, and every token
ends before its quote. -/
theorem of_unterminatedString (tiled : Tiled place source tokens errors)
    {front others : List LexicalError} {content : String} {span : Span}
    (present : errors = front ++ .unterminatedString content span :: others) :
    others = [] ∧ span = (place.advance source).point ∧
      ∃ before, source = before ++ '"' :: content.toList ∧
        ∀ token ∈ tokens, token.span.finish ≤ (place.advance before).offset := by
  -- Each tile in front adds its text to what stands before the quote.
  induction tiled generalizing front with
  | finish => simp at present
  | @gap place gap rest _ _ _ _ inductionHypothesis =>
      obtain ⟨last, placed, before, rfl, earlier⟩ := inductionHypothesis present
      refine ⟨last, ?_, gap ++ before, by simp, ?_⟩
      · rw [placed, ← Place.advance_append]
      · rwa [Place.advance_append]
  | @token place kind text rest _ _ _ _ _ inductionHypothesis =>
      obtain ⟨last, placed, before, rfl, earlier⟩ := inductionHypothesis present
      refine ⟨last, ?_, text ++ before, by simp, ?_⟩
      · rw [placed, ← Place.advance_append]
      · rw [Place.advance_append]
        exact List.forall_mem_cons.2 ⟨Nat.le_add_right _ _, earlier⟩
  | @stray place character rest _ _ _ inductionHypothesis =>
      cases front with
      | nil => cases present
      | cons _ front =>
          obtain ⟨last, placed, before, rfl, earlier⟩ :=
            inductionHypothesis (List.cons.inj present).2
          refine ⟨last, ?_, character :: before, rfl, ?_⟩
          · rw [placed, ← Place.advance_append]
            rfl
          · rwa [← List.singleton_append, Place.advance_append]
  | @openString place content quoteless =>
      cases front with
      | nil =>
          cases present
          exact ⟨rfl, rfl, [], by simp, by simp⟩
      | cons _ front => simp at present

end Tiled

/-- The tokens and errors of a scan tile its source. -/
theorem tiled_scan (source : String) :
    Tiled {} source.toList (scan source).produced (scan source).errors :=
  (munched_scan source).tiled

/-- A token of a scan is the text under its span. -/
theorem covers_of_mem_scan {source : String} {token : Token}
    (present : token ∈ (scan source).produced) :
    0 < token.span.length ∧ token.span.Covers source token.kind.lexeme := by
  obtain ⟨text, nonempty, spelled, shows⟩ := (tiled_scan source).shows_token present
  rw [spelled, shows.length_eq]
  exact ⟨Place.byteLength_pos nonempty, shows.covers⟩

/-- Scanning loses and repeats no byte. Tokens, errors and the gaps between them tile the
source in order; a token is the text under its span, and an unexpected character the
character under its own. A string that no quote closes is the last error, stands at the end
and holds all that follows its quote, before which every token ends. -/
theorem scan_loses_no_byte (source : String) :
    Tiled {} source.toList (scan source).produced (scan source).errors ∧
    (∀ token ∈ (scan source).produced,
      0 < token.span.length ∧ token.span.Covers source token.kind.lexeme) ∧
    (scan source).produced.Pairwise (fun first second =>
      first.span.finish ≤ second.span.offset) ∧
    (∀ character span, .unexpectedCharacter character span ∈ (scan source).errors →
      span.Covers source character.toString) ∧
    (∀ front content span others,
      (scan source).errors = front ++ .unterminatedString content span :: others →
        others = [] ∧ span.offset = source.utf8ByteSize ∧ span.length = 0 ∧
        ∃ before : String, source = before ++ "\"" ++ content ∧
          ∀ token ∈ (scan source).produced, token.span.finish ≤ before.utf8ByteSize) := by
  have tiled := tiled_scan source
  refine ⟨tiled, fun _ => covers_of_mem_scan, tiled.pairwise_tokens, ?_, ?_⟩
  · intro character span present
    exact (tiled.shows_unexpectedCharacter present).covers
  · intro front content span others present
    obtain ⟨last, placed, before, whole, earlier⟩ := tiled.of_unterminatedString present
    refine ⟨last, ?_, by rw [placed]; rfl, String.ofList before, ?_, ?_⟩
    · rw [placed]
      simp [Place.point, Place.advance, Place.byteLength_toList]
    · rw [← String.toList_inj, whole]
      simp
    · simpa [Place.advance, Place.utf8ByteSize_ofList] using earlier

/-- The quote is missed at the end of the source, behind one token. -/
theorem scan_loses_no_byte_open_string :
    ∃ before : String, "a \"é" = before ++ "\"" ++ "é" ∧
      ∀ token ∈ (scan "a \"é").produced, token.span.finish ≤ before.utf8ByteSize := by
  have errors : (scan "a \"é").errors = [] ++ .unterminatedString "é" ⟨1, 5, 0⟩ :: [] := by
    decide +kernel
  exact ((scan_loses_no_byte "a \"é").2.2.2.2 _ _ _ _ errors).2.2.2

end TreeWalk
