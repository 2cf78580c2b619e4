import TreeWalk.Error

/-!
# Scanning

`pieces` cuts a source into pieces, taking the longest one at each point. `scan` then
puts every piece at its place and keeps the tokens and the errors. The classes of
letters, digits and blanks are those of ASCII.
-/

namespace TreeWalk

/-- What a piece of source turns out to be. -/
inductive Finding where
  | token (kind : Kind)
  | separator (trivia : Trivia)
  | stray (character : Char)
  | openString (content : String)
deriving DecidableEq

/-- A stretch of source and what it is. -/
structure Piece where
  finding : Finding
  text : List Char
deriving DecidableEq

namespace Piece

/-- Blanks within a line. -/
def isBlank (character : Char) : Bool :=
  character == ' ' || character == '\t' || character == '\r'

/-- A blank is a space, a tab or a carriage return. -/
theorem isBlank_iff {character : Char} :
    isBlank character ↔ character = ' ' ∨ character = '\t' ∨ character = '\r' := by
  simp [isBlank, or_assoc]

/-- The digits are those of ASCII. -/
theorem isDigit_iff {character : Char} :
    character.isDigit ↔ '0' ≤ character ∧ character ≤ '9' := by
  unfold Char.isDigit
  rw [Bool.and_eq_true, decide_eq_true_eq, decide_eq_true_eq]
  rfl

/-- What a word may start with. -/
def startsWord (character : Char) : Bool :=
  character.isAlpha || character == '_'

/-- A word starts with a letter of ASCII or an underscore. -/
theorem startsWord_iff {character : Char} :
    startsWord character ↔
      'A' ≤ character ∧ character ≤ 'Z' ∨ 'a' ≤ character ∧ character ≤ 'z' ∨ character = '_' := by
  unfold startsWord Char.isAlpha Char.isUpper Char.isLower
  simp only [Bool.or_eq_true, Bool.and_eq_true, decide_eq_true_eq, beq_iff_eq, or_assoc]
  rfl

/-- What a word may go on with. -/
def continuesWord (character : Char) : Bool :=
  character.isAlphanum || character == '_'

/-- A word goes on with letters and digits of ASCII and underscores. -/
theorem continuesWord_iff {character : Char} :
    continuesWord character ↔
      'A' ≤ character ∧ character ≤ 'Z' ∨ 'a' ≤ character ∧ character ≤ 'z' ∨ character = '_' ∨
        '0' ≤ character ∧ character ≤ '9' := by
  have either : continuesWord character ↔ startsWord character ∨ character.isDigit := by
    unfold continuesWord startsWord Char.isAlphanum
    simp only [Bool.or_eq_true]
    exact or_right_comm
  rw [either, startsWord_iff, isDigit_iff, or_assoc, or_assoc]

/-- The punctuator of one character. -/
def singleMark? : Char → Option Punctuator
  | '\x7b' => some .leftBrace
  | '\x7d' => some .rightBrace
  | '(' => some .leftParen
  | ')' => some .rightParen
  | ',' => some .comma
  | '.' => some .dot
  | '+' => some .plus
  | '-' => some .minus
  | ';' => some .semicolon
  | '*' => some .star
  | '/' => some .slash
  | '<' => some .less
  | '>' => some .greater
  | '!' => some .bang
  | '=' => some .equal
  | _ => none

/-- The punctuator that an equals sign makes of the one before it. -/
def withEqual? : Punctuator → Option Punctuator
  | .less => some .lessEqual
  | .greater => some .greaterEqual
  | .bang => some .bangEqual
  | .equal => some .equalEqual
  | _ => none

/-- What a number goes on with after its first digit: digits, then perhaps a point and
more digits. -/
def numberTail (rest : List Char) : List Char :=
  let whole := rest.takeWhile Char.isDigit
  match rest.dropWhile Char.isDigit with
  | '.' :: fraction => whole ++ '.' :: fraction.takeWhile Char.isDigit
  | _ => whole

/-- The kind of a word: a reserved word, or else an identifier. -/
def wordKind (word : String) : Kind :=
  match Keyword.ofText? word with
  | some reserved => .keyword reserved
  | none => .identifier word

/-- A string up to its closing quote, or all the rest where there is none. -/
def quoted (rest : List Char) : Piece :=
  let content := rest.takeWhile (· ≠ '"')
  match rest.dropWhile (· ≠ '"') with
  | [] => ⟨.openString (String.ofList content), '"' :: content⟩
  | quote :: _ => ⟨.token (.string (String.ofList content)), '"' :: content ++ [quote]⟩

/-- A punctuator, with the equals sign after it where that makes a longer one. -/
def punctuation (head : Char) (rest : List Char) (mark : Punctuator) : Piece :=
  match rest, withEqual? mark with
  | '=' :: _, some longer => ⟨.token (.punctuator longer), [head, '=']⟩
  | _, _ => ⟨.token (.punctuator mark), [head]⟩

/-- The longest piece at the head of a source. -/
def first (head : Char) (rest : List Char) : Piece :=
  if head = '\n' then ⟨.separator .lineBreak, [head]⟩
  else if isBlank head then ⟨.separator .blank, head :: rest.takeWhile isBlank⟩
  else if head = '"' then quoted rest
  else if head.isDigit then
    let text := head :: numberTail rest
    ⟨.token (.number (Double.ofDecimalText text) (String.ofList text)), text⟩
  else if startsWord head then
    let text := head :: rest.takeWhile continuesWord
    ⟨.token (wordKind (String.ofList text)), text⟩
  else if head = '/' ∧ rest.head? = some '/' then
    ⟨.separator .comment, head :: rest.takeWhile (· ≠ '\n')⟩
  else match singleMark? head with
    | some mark => punctuation head rest mark
    | none => ⟨.stray head, [head]⟩

/-- The source cut into its pieces. -/
def pieces : List Char → List Piece
  | [] => []
  | head :: rest =>
      let piece := first head rest
      piece :: pieces (rest.drop (piece.text.length - 1))
termination_by source => source.length
decreasing_by simp only [List.length_drop, List.length_cons]; omega

/-- What a number goes on with stands in the source. -/
theorem numberTail_prefix (rest : List Char) : numberTail rest <+: rest := by
  have whole := List.takeWhile_append_dropWhile (p := Char.isDigit) (l := rest)
  unfold numberTail
  split
  next fraction point =>
    rw [point] at whole
    refine ⟨fraction.dropWhile Char.isDigit, ?_⟩
    simpa [List.takeWhile_append_dropWhile] using whole
  next => exact List.takeWhile_prefix _

/-- A string is its opening quote and more of the source. -/
theorem quoted_text (rest : List Char) :
    ∃ tail, (quoted rest).text = '"' :: tail ∧ tail <+: rest := by
  have whole := List.takeWhile_append_dropWhile (p := fun c => decide (c ≠ '"')) (l := rest)
  unfold quoted
  split
  next => exact ⟨_, rfl, List.takeWhile_prefix _⟩
  next quote after closing =>
    rw [closing] at whole
    exact ⟨_, rfl, after, by simpa using whole⟩

/-- A punctuator is its first character and perhaps more of the source. -/
theorem punctuation_text (head : Char) (rest : List Char) (mark : Punctuator) :
    ∃ tail, (punctuation head rest mark).text = head :: tail ∧ tail <+: rest := by
  unfold punctuation
  split
  next after _ _ => exact ⟨['='], rfl, after, rfl⟩
  next => exact ⟨[], rfl, List.nil_prefix⟩

/-- The first piece starts with the first character and goes on with what follows it. -/
theorem first_text (head : Char) (rest : List Char) :
    ∃ tail, (first head rest).text = head :: tail ∧ tail <+: rest := by
  unfold first
  split
  next => exact ⟨[], rfl, List.nil_prefix⟩
  split
  next => exact ⟨_, rfl, List.takeWhile_prefix _⟩
  split
  next quote => rw [quote]; exact quoted_text rest
  split
  next => exact ⟨_, rfl, numberTail_prefix rest⟩
  split
  next => exact ⟨_, rfl, List.takeWhile_prefix _⟩
  split
  next => exact ⟨_, rfl, List.takeWhile_prefix _⟩
  split
  next mark _ => exact punctuation_text head rest mark
  next => exact ⟨[], rfl, List.nil_prefix⟩

/-- The token that the piece is, if it is one, at the place where the piece starts. -/
def token? (piece : Piece) (place : Place) : Option Token :=
  match piece.finding with
  | .token kind => some ⟨kind, place.span piece.text⟩
  | _ => none

/-- The error that the piece is, if it is one. A missing quote is missed where the
piece ends, and there the source ends. -/
def error? (piece : Piece) (place : Place) : Option LexicalError :=
  match piece.finding with
  | .stray character => some (.unexpectedCharacter character (place.span piece.text))
  | .openString content => some (.unterminatedString content (place.advance piece.text).point)
  | _ => none

end Piece

namespace Token

/-- The tokens among pieces that follow each other from a place on. -/
def ofPieces (place : Place) : List Piece → List Token
  | [] => []
  | piece :: pieces => (piece.token? place).toList ++ ofPieces (place.advance piece.text) pieces

end Token

namespace LexicalError

/-- The errors among pieces that follow each other from a place on. -/
def ofPieces (place : Place) : List Piece → List LexicalError
  | [] => []
  | piece :: pieces => (piece.error? place).toList ++ ofPieces (place.advance piece.text) pieces

end LexicalError

/-- The tokens of a source and the errors between them, each in order. -/
def scan (source : String) : Outcome (List Token) LexicalError :=
  let pieces := Piece.pieces source.toList
  { produced := Token.ofPieces {} pieces
    errors := LexicalError.ofPieces {} pieces }

end TreeWalk
