import TreeWalk.Proofs.Token.Lexicon

/-!
# Maximal munch

Scanning as a relation that knows the lexical grammar alone. Wherever it stands it takes the
longest piece that stands there, and a single character where no piece does. The scanner
computes this relation, and nothing else stands in it.
-/

namespace TreeWalk

/-- What maximal munch makes of the text that is left at a place. -/
inductive Munched : Place → List Char → List Token → List LexicalError → Prop where
  | finish {place : Place} : Munched place [] [] []
  | token {place : Place} {kind : Kind} {text rest : List Char} {tokens errors}
      (longest : Piece.Longest ⟨.token kind, text⟩ (text ++ rest))
      (behind : Munched (place.advance text) rest tokens errors) :
      Munched place (text ++ rest) (⟨kind, place.span text⟩ :: tokens) errors
  | separator {place : Place} {trivia : Trivia} {text rest : List Char} {tokens errors}
      (longest : Piece.Longest ⟨.separator trivia, text⟩ (text ++ rest))
      (behind : Munched (place.advance text) rest tokens errors) :
      Munched place (text ++ rest) tokens errors
  | openString {place : Place} {content : String} {text rest : List Char} {tokens errors}
      (longest : Piece.Longest ⟨.openString content, text⟩ (text ++ rest))
      (behind : Munched (place.advance text) rest tokens errors) :
      Munched place (text ++ rest) tokens
        (.unterminatedString content (place.advance text).point :: errors)
  | stray {place : Place} {character : Char} {rest : List Char} {tokens errors}
      (strange : ∀ piece : Piece, piece.Lexical → ¬ piece.text <+: character :: rest)
      (behind : Munched (place.advance [character]) rest tokens errors) :
      Munched place (character :: rest) tokens
        (.unexpectedCharacter character (place.span [character]) :: errors)

namespace Piece

variable {piece : Piece} {rest : List Char}

/-- Behind the first piece the rest is cut by itself. -/
theorem pieces_eq_cons {head : Char} {others : List Char}
    (whole : head :: others = (first head others).text ++ rest) :
    pieces (head :: others) = first head others :: pieces rest := by
  obtain ⟨tail, text, _⟩ := first_text head others
  rw [text, List.cons_append, List.cons.injEq] at whole
  rw [pieces, text, List.length_cons, Nat.add_sub_cancel, whole.2, List.drop_left]

/-- The scanner takes the longest piece. -/
theorem pieces_of_longest (longest : piece.Longest (piece.text ++ rest)) :
    pieces (piece.text ++ rest) = piece :: pieces rest := by
  obtain ⟨head, tail, text⟩ := List.exists_cons_of_ne_nil longest.lexical.text_ne_nil
  have taken : first head (tail ++ rest) = piece := by
    rw [text, List.cons_append] at longest
    rcases lexical_first_or_stray head (tail ++ rest) with lexical | stray
    · exact (longest_first lexical).unique longest
    · exact absurd longest.here (not_lexical_of_stray stray longest.lexical)
  have whole : head :: (tail ++ rest) = (first head (tail ++ rest)).text ++ rest := by
    rw [taken, text, List.cons_append]
  rw [text, List.cons_append, pieces_eq_cons whole, taken]

/-- The scanner takes a character on its own where no piece begins. -/
theorem pieces_of_strange {character : Char}
    (strange : ∀ piece : Piece, piece.Lexical → ¬ piece.text <+: character :: rest) :
    pieces (character :: rest) = ⟨.stray character, [character]⟩ :: pieces rest := by
  have taken : first character rest = ⟨.stray character, [character]⟩ := by
    refine (lexical_first_or_stray character rest).resolve_left fun lexical => ?_
    exact strange _ lexical (longest_first lexical).here
  have whole : character :: rest = (first character rest).text ++ rest := by
    rw [taken]
    rfl
  rw [pieces_eq_cons whole, taken]

end Piece

/-- The scanner's tokens and errors are those of maximal munch. -/
theorem munched_pieces (place : Place) (source : List Char) :
    Munched place source (Token.ofPieces place (Piece.pieces source))
      (LexicalError.ofPieces place (Piece.pieces source)) := by
  cases source with
  | nil =>
      rw [Piece.pieces]
      exact .finish
  | cons head others =>
      obtain ⟨tail, text, rest, rfl⟩ := Piece.first_text head others
      have whole : head :: (tail ++ rest) = (Piece.first head (tail ++ rest)).text ++ rest := by
        rw [text, List.cons_append]
      have cut := Piece.pieces_eq_cons whole
      have behind := munched_pieces (place.advance (head :: tail)) rest
      rcases Piece.lexical_first_or_stray head (tail ++ rest) with lexical | stray
      · have longest := Piece.longest_first lexical
        rw [cut]
        -- By its name the piece can be taken apart into what it is and its text.
        generalize Piece.first head (tail ++ rest) = piece at text lexical longest
        obtain ⟨finding, _⟩ := piece
        cases text
        rw [← List.cons_append] at longest ⊢
        cases finding with
        | token kind => exact .token longest behind
        | separator trivia => exact .separator longest behind
        | openString content => exact .openString longest behind
        | stray character => cases lexical
      · rw [stray] at text
        cases text
        rw [cut, stray]
        exact .stray (fun piece => Piece.not_lexical_of_stray stray) behind
termination_by source.length

/-- Maximal munch leaves no choice. -/
theorem Munched.eq_ofPieces {place : Place} {source : List Char} {tokens : List Token}
    {errors : List LexicalError} (munched : Munched place source tokens errors) :
    tokens = Token.ofPieces place (Piece.pieces source) ∧
      errors = LexicalError.ofPieces place (Piece.pieces source) := by
  induction munched with
  | finish =>
      rw [Piece.pieces]
      exact ⟨rfl, rfl⟩
  | token longest _ inductionHypothesis =>
      obtain ⟨rfl, rfl⟩ := inductionHypothesis
      rw [Piece.pieces_of_longest longest]
      exact ⟨rfl, rfl⟩
  | separator longest _ inductionHypothesis =>
      obtain ⟨rfl, rfl⟩ := inductionHypothesis
      rw [Piece.pieces_of_longest longest]
      exact ⟨rfl, rfl⟩
  | openString longest _ inductionHypothesis =>
      obtain ⟨rfl, rfl⟩ := inductionHypothesis
      rw [Piece.pieces_of_longest longest]
      exact ⟨rfl, rfl⟩
  | stray strange _ inductionHypothesis =>
      obtain ⟨rfl, rfl⟩ := inductionHypothesis
      rw [Piece.pieces_of_strange strange]
      exact ⟨rfl, rfl⟩

/-- The tokens and errors of a scan are those of maximal munch. -/
theorem munched_scan (source : String) :
    Munched {} source.toList (scan source).produced (scan source).errors :=
  munched_pieces {} source.toList

/-- Scanning is maximal munch: it makes of a source what the longest pieces of the lexical
grammar make of it, and that is one list of tokens and one list of errors. -/
theorem scan_eq_iff_munched (source : String) (tokens : List Token) (errors : List LexicalError) :
    scan source = ⟨tokens, errors⟩ ↔ Munched {} source.toList tokens errors := by
  constructor
  · intro scanned
    have munched := munched_scan source
    rwa [scanned] at munched
  · intro munched
    obtain ⟨rfl, rfl⟩ := munched.eq_ofPieces
    rfl

end TreeWalk
