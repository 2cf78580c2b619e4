import TreeWalk.Proofs.Token.Tiling

/-!
# Scanning what was scanned

The lexeme of a token is read as that token wherever a blank follows, or nothing at all. So the
lexemes of a scan, with a space between each two, are scanned to the same kinds.
-/

namespace TreeWalk

/-- The lexemes of the tokens, with a space between each two. -/
def Token.spaced (tokens : List Token) : String :=
  " ".intercalate (tokens.map fun token => token.kind.lexeme)

/-- Tokens that are spelled out stand with one blank between each two. -/
theorem Token.toList_spaced (tokens : List Token) :
    (spaced tokens).toList =
      [' '].intercalate ((tokens.map Token.kind).map fun kind => kind.lexeme.toList) := by
  rw [spaced, String.toList_intercalate, List.map_map, List.map_map]
  rfl

/-- The lexical grammar has the lexeme as a token of the kind. -/
def Kind.Spelled (kind : Kind) : Prop :=
  Piece.Lexical ⟨.token kind, kind.lexeme.toList⟩

namespace Piece

variable {head : Char} {tail behind : List Char}

/-- A reserved word is made up as identifiers are. -/
theorem word_of_reserved (word : Keyword) (text : word.text.toList = head :: tail) :
    startsWord head ∧ ∀ c ∈ tail, continuesWord c := by
  have made : startsWord head ∧ tail.all continuesWord := by
    cases word <;> (cases text; decide)
  exact ⟨made.1, List.all_eq_true.1 made.2⟩

/-- No token goes on over a blank. -/
theorem first_of_token {kind : Kind} (lexical : Lexical ⟨.token kind, head :: tail⟩)
    (ends : ∀ c ∈ behind.head?, isBlank c) :
    first head (tail ++ behind) = ⟨.token kind, head :: tail⟩ := by
  have noDigit : ∀ c ∈ behind.head?, ¬ c.isDigit := by
    intro c next
    rcases isBlank_iff.1 (ends c next) with rfl | rfl | rfl <;> decide
  have noPoint : '.' ∉ behind.head? := fun next => by cases ends '.' next
  have noWord : ∀ c ∈ behind.head?, ¬ continuesWord c := by
    intro c next
    rcases isBlank_iff.1 (ends c next) with rfl | rfl | rfl <;> decide
  generalize whole : head :: tail = text at lexical
  cases lexical with
  | mark mark =>
      -- Some marks are the beginnings of longer ones, or of a comment: a blank is neither.
      rcases behind with _ | ⟨next, after⟩
      · cases mark <;> (cases whole; rfl)
      · rcases isBlank_iff.1 (ends next rfl) with rfl | rfl | rfl <;>
          cases mark <;> (cases whole; rfl)
  | number numeral =>
      obtain ⟨digit, taken⟩ := numeral.numberTail_append whole.symm noDigit noPoint
      rw [first_digit _ digit, taken, whole]
  | reserved word =>
      obtain ⟨starts, continues⟩ := word_of_reserved word whole.symm
      rw [first_word _ starts, takeWhile_append_of_head continues noWord, whole,
        String.ofList_toList, wordKind_reserved]
  | identifier starts continues free =>
      obtain ⟨rfl, rfl⟩ := List.cons.inj whole
      rw [first_word _ starts, takeWhile_append_of_head continues noWord, wordKind_free free]
  | string quoteless =>
      obtain ⟨rfl, rfl⟩ := List.cons.inj whole
      change quoted ((_ ++ ['"']) ++ behind) = _
      rw [List.append_assoc]
      exact quoted_closed quoteless behind

/-- In front of a blank a token is the longest piece. -/
theorem longest_of_token {kind : Kind} {text : List Char} (lexical : Lexical ⟨.token kind, text⟩)
    (ends : ∀ c ∈ behind.head?, isBlank c) : Longest ⟨.token kind, text⟩ (text ++ behind) := by
  obtain ⟨head, tail, rfl⟩ := List.exists_cons_of_ne_nil lexical.text_ne_nil
  have taken := first_of_token lexical ends
  rw [← taken] at lexical ⊢
  exact longest_first lexical

/-- In front of a token a single blank is the longest piece. -/
theorem longest_blank {kind : Kind} {text : List Char} (lexical : Lexical ⟨.token kind, text⟩) :
    Longest ⟨.separator .blank, [' ']⟩ ([' '] ++ (text ++ behind)) := by
  obtain ⟨head, tail, rfl⟩ := List.exists_cons_of_ne_nil lexical.text_ne_nil
  have solid : ¬ isBlank head := by
    intro blank
    have taken := first_of_lexical lexical rfl
    rw [first_blank _ blank] at taken
    cases taken
  have alone : first ' ' (head :: tail ++ behind) = ⟨.separator .blank, [' ']⟩ := by
    rw [first_blank _ rfl, List.cons_append, List.takeWhile_cons_of_neg solid]
  have lexicalBlank : Lexical ⟨.separator .blank, [' ']⟩ := .blank (by simp) (by simp [isBlank])
  rw [← alone] at lexicalBlank ⊢
  exact longest_first lexicalBlank

end Piece

/-- The tokens of a text are spelled as their lexemes. -/
theorem Munched.spelled {place : Place} {source : List Char} {tokens : List Token}
    {errors : List LexicalError} (munched : Munched place source tokens errors) :
    ∀ token ∈ tokens, token.kind.Spelled := by
  induction munched with
  | finish => simp
  | token longest _ inductionHypothesis =>
      refine List.forall_mem_cons.2 ⟨?_, inductionHypothesis⟩
      rw [Kind.Spelled, longest.lexical.lexeme_eq, String.toList_ofList]
      exact longest.lexical
  | separator _ _ inductionHypothesis => exact inductionHypothesis
  | openString _ _ inductionHypothesis => exact inductionHypothesis
  | stray _ _ inductionHypothesis => exact inductionHypothesis

/-- Lexemes with a space between each two begin with the first of them. -/
theorem exists_intercalate_eq (kind : Kind) (kinds : List Kind) :
    ∃ behind, [' '].intercalate ((kind :: kinds).map fun kind => kind.lexeme.toList) =
      kind.lexeme.toList ++ behind := by
  cases kinds with
  | nil => exact ⟨[], by simp⟩
  | cons next kinds =>
      refine ⟨[' '] ++ [' '].intercalate ((next :: kinds).map fun kind => kind.lexeme.toList), ?_⟩
      rw [List.map_cons, List.map_cons, List.intercalate_cons_cons, List.append_assoc]

/-- Lexemes with a space between each two are scanned to their kinds, without an error. -/
theorem exists_munched_spaced {kinds : List Kind} (spelled : ∀ kind ∈ kinds, kind.Spelled)
    (place : Place) :
    ∃ tokens, tokens.map Token.kind = kinds ∧
      Munched place ([' '].intercalate (kinds.map fun kind => kind.lexeme.toList)) tokens [] := by
  induction kinds generalizing place with
  | nil => exact ⟨[], rfl, .finish⟩
  | cons kind kinds inductionHypothesis =>
      obtain ⟨here, others⟩ := List.forall_mem_cons.1 spelled
      cases kinds with
      | nil =>
          have munched := Munched.token (Piece.longest_of_token here (by simp))
            (.finish : Munched (place.advance kind.lexeme.toList) [] [] [])
          rw [List.append_nil] at munched
          rw [List.map_singleton, List.intercalate_singleton]
          exact ⟨[⟨kind, place.span kind.lexeme.toList⟩], rfl, munched⟩
      | cons next kinds =>
          obtain ⟨tokens, same, munched⟩ :=
            inductionHypothesis others ((place.advance kind.lexeme.toList).advance [' '])
          have blank : Piece.Longest ⟨.separator .blank, [' ']⟩ ([' '] ++
              [' '].intercalate ((next :: kinds).map fun kind => kind.lexeme.toList)) := by
            obtain ⟨behind, split⟩ := exists_intercalate_eq next kinds
            rw [split]
            exact Piece.longest_blank (List.forall_mem_cons.1 others).1
          refine ⟨⟨kind, place.span kind.lexeme.toList⟩ :: tokens, by rw [List.map_cons, same], ?_⟩
          rw [List.map_cons, List.map_cons, List.intercalate_cons_cons, List.append_assoc]
          refine .token (Piece.longest_of_token here ?_) (.separator blank munched)
          simp [Piece.isBlank]

/-- Scanning again what was scanned changes nothing. Whatever the source, and whatever errors it
has, the lexemes of its tokens, written in order with a space between each two, are scanned
without an error to tokens of the same kinds, with the same literals and lexemes. -/
theorem rescan_keeps_kinds (source : String) :
    (scan (Token.spaced (scan source).produced)).errors = [] ∧
      (scan (Token.spaced (scan source).produced)).produced.map Token.kind =
        (scan source).produced.map Token.kind := by
  have spelled : ∀ kind ∈ (scan source).produced.map Token.kind, kind.Spelled := by
    intro kind present
    obtain ⟨token, scanned, rfl⟩ := List.mem_map.1 present
    exact (munched_scan source).spelled token scanned
  obtain ⟨tokens, same, munched⟩ := exists_munched_spaced spelled {}
  rw [← Token.toList_spaced] at munched
  obtain ⟨produced, errors⟩ := munched.eq_ofPieces
  refine ⟨errors.symm, ?_⟩
  rw [← same, produced]
  rfl

end TreeWalk
