import Mathlib.Data.List.TakeWhile
import TreeWalk.Token.Scan

/-!
# The lexical grammar

The pieces that a source can hold, each class by the shape of its texts. At the head of a
source the scanner takes the longest piece that stands there. A character with which no
piece begins is taken on its own.
-/

namespace TreeWalk

/-- The texts of numbers: digits, then perhaps a point and more digits or none. -/
inductive Piece.Numeral : List Char → Prop where
  | whole {digits : List Char} (nonempty : digits ≠ []) (allDigits : ∀ c ∈ digits, c.isDigit) :
      Numeral digits
  | pointed {digits fraction : List Char} (nonempty : digits ≠ [])
      (allDigits : ∀ c ∈ digits, c.isDigit) (behindPoint : ∀ c ∈ fraction, c.isDigit) :
      Numeral (digits ++ '.' :: fraction)

/-- The pieces of the lexical grammar. A word is reserved or else an identifier, and a string
that no quote closes is a piece as well. -/
inductive Piece.Lexical : Piece → Prop where
  | mark (mark : Punctuator) : Lexical ⟨.token (.punctuator mark), mark.text.toList⟩
  | number {text : List Char} (numeral : Numeral text) :
      Lexical ⟨.token (.number (Double.ofDecimalText text) (String.ofList text)), text⟩
  | reserved (word : Keyword) : Lexical ⟨.token (.keyword word), word.text.toList⟩
  | identifier {head : Char} {tail : List Char} (starts : startsWord head)
      (continues : ∀ c ∈ tail, continuesWord c)
      (free : ∀ word : Keyword, word.text ≠ String.ofList (head :: tail)) :
      Lexical ⟨.token (.identifier (String.ofList (head :: tail))), head :: tail⟩
  | string {content : List Char} (quoteless : '"' ∉ content) :
      Lexical ⟨.token (.string (String.ofList content)), '"' :: content ++ ['"']⟩
  | openString {content : List Char} (quoteless : '"' ∉ content) :
      Lexical ⟨.openString (String.ofList content), '"' :: content⟩
  | comment {content : List Char} (within : '\n' ∉ content) :
      Lexical ⟨.separator .comment, '/' :: '/' :: content⟩
  | lineBreak : Lexical ⟨.separator .lineBreak, ['\n']⟩
  | blank {text : List Char} (nonempty : text ≠ []) (blanks : ∀ c ∈ text, isBlank c) :
      Lexical ⟨.separator .blank, text⟩

/-- The piece stands at the head of the source, and no piece that stands there is longer. -/
structure Piece.Longest (piece : Piece) (source : List Char) : Prop where
  lexical : piece.Lexical
  here : piece.text <+: source
  longest : ∀ other : Piece, other.Lexical → other.text <+: source →
    other.text.length ≤ piece.text.length

namespace Piece

variable {head : Char} {tail rest : List Char} {piece : Piece}

/-- No word starts with a digit. -/
theorem isDigit_eq_false_of_startsWord (starts : startsWord head) : head.isDigit = false := by
  rw [← Bool.not_eq_true, isDigit_iff]
  rintro ⟨_, belowNine⟩
  rcases startsWord_iff.1 starts with ⟨upper, _⟩ | ⟨lower, _⟩ | rfl
  · exact absurd (Char.le_trans upper belowNine) (by decide)
  · exact absurd (Char.le_trans lower belowNine) (by decide)
  · exact absurd belowNine (by decide)

section First

variable (rest)

/-- Blanks are taken as far as they go. -/
theorem first_blank (blank : isBlank head) :
    first head rest = ⟨.separator .blank, head :: rest.takeWhile isBlank⟩ := by
  have inLine : head ≠ '\n' := by rintro rfl; cases blank
  rw [first, if_neg inLine, if_pos blank]

/-- A number is taken as far as it goes. -/
theorem first_digit (digit : head.isDigit) :
    first head rest =
      ⟨.token (.number (Double.ofDecimalText (head :: numberTail rest))
        (String.ofList (head :: numberTail rest))), head :: numberTail rest⟩ := by
  have inLine : head ≠ '\n' := by rintro rfl; cases digit
  have noQuote : head ≠ '"' := by rintro rfl; cases digit
  have noBlank : ¬ isBlank head := fun blank => by
    rcases isBlank_iff.1 blank with rfl | rfl | rfl <;> cases digit
  rw [first, if_neg inLine, if_neg noBlank, if_neg noQuote, if_pos digit]

/-- A word is taken as far as it goes. -/
theorem first_word (starts : startsWord head) :
    first head rest =
      ⟨.token (wordKind (String.ofList (head :: rest.takeWhile continuesWord))),
        head :: rest.takeWhile continuesWord⟩ := by
  have inLine : head ≠ '\n' := by rintro rfl; cases starts
  have noQuote : head ≠ '"' := by rintro rfl; cases starts
  have noBlank : ¬ isBlank head := fun blank => by
    rcases isBlank_iff.1 blank with rfl | rfl | rfl <;> cases starts
  have noDigit : ¬ head.isDigit := by simp [isDigit_eq_false_of_startsWord starts]
  rw [first, if_neg inLine, if_neg noBlank, if_neg noQuote, if_neg noDigit, if_pos starts]

end First

section Runs

variable {p : Char → Bool} {run behind : List Char}

/-- A run ends where a character outside its class follows. -/
theorem takeWhile_append_of_head (inside : ∀ c ∈ run, p c) (outside : ∀ c ∈ behind.head?, ¬ p c) :
    (run ++ behind).takeWhile p = run := by
  cases behind with
  | nil => simpa using inside
  | cons stop after =>
      rw [List.takeWhile_append_of_pos inside, List.takeWhile_cons_of_neg (outside stop rfl),
        List.append_nil]

/-- Behind a run stands what follows it. -/
theorem dropWhile_append_of_head (inside : ∀ c ∈ run, p c) (outside : ∀ c ∈ behind.head?, ¬ p c) :
    (run ++ behind).dropWhile p = behind := by
  rw [List.dropWhile_append_of_pos inside]
  cases behind with
  | nil => rfl
  | cons stop after => rw [List.dropWhile_cons_of_neg (outside stop rfl)]

/-- Every text is a run and what follows it. -/
theorem exists_run (p : Char → Bool) (text : List Char) :
    ∃ run behind, text = run ++ behind ∧ (∀ c ∈ run, p c) ∧ ∀ c ∈ behind.head?, ¬ p c := by
  refine ⟨text.takeWhile p, text.dropWhile p, List.takeWhile_append_dropWhile.symm,
    fun c => List.mem_takeWhile_imp, fun c found => ?_⟩
  have outside := List.head?_dropWhile_not p text
  rw [Option.mem_def.1 found] at outside
  simpa using outside

/-- With more text a run gets no shorter. -/
theorem length_takeWhile_le (p : Char → Bool) (text more : List Char) :
    (text.takeWhile p).length ≤ ((text ++ more).takeWhile p).length := by
  rw [List.takeWhile_append]
  split
  · rw [List.length_append]
    exact Nat.le_add_right_of_le (List.takeWhile_prefix p).length_le
  · exact Nat.le_refl _

end Runs

section Numbers

variable {digits behind : List Char}

/-- A number goes on behind a point over more digits. -/
theorem numberTail_pointed (inside : ∀ c ∈ digits, c.isDigit) (behind : List Char) :
    numberTail (digits ++ '.' :: behind) = digits ++ '.' :: behind.takeWhile Char.isDigit := by
  have outside : ∀ c ∈ ('.' :: behind).head?, ¬ c.isDigit := by
    rintro _ ⟨⟩
    decide
  rw [numberTail, takeWhile_append_of_head inside outside, dropWhile_append_of_head inside outside]
  rfl

/-- Without a point a number ends with its digits. -/
theorem numberTail_whole (inside : ∀ c ∈ digits, c.isDigit)
    (outside : ∀ c ∈ behind.head?, ¬ c.isDigit) (pointless : '.' ∉ behind.head?) :
    numberTail (digits ++ behind) = digits := by
  rw [numberTail, takeWhile_append_of_head inside outside, dropWhile_append_of_head inside outside]
  cases behind with
  | nil => rfl
  | cons stop after =>
      split
      next same =>
        cases same
        cases pointless rfl
      next => rfl

/-- What is taken from a digit on is a number. -/
theorem numeral_numberTail (digit : head.isDigit) (rest : List Char) :
    Numeral (head :: numberTail rest) := by
  obtain ⟨digits, behind, rfl, inside, outside⟩ := exists_run Char.isDigit rest
  have allDigits : ∀ c ∈ head :: digits, c.isDigit := List.forall_mem_cons.2 ⟨digit, inside⟩
  by_cases point : '.' ∈ behind.head?
  · obtain ⟨fraction, rfl⟩ := List.head?_eq_some_iff.1 point
    rw [numberTail_pointed inside]
    exact .pointed (List.cons_ne_nil head digits) allDigits fun c => List.mem_takeWhile_imp
  · rw [numberTail_whole inside outside point]
    exact .whole (List.cons_ne_nil head digits) allDigits

/-- The whole of a number is taken, and no more, where neither a digit nor a point follows. -/
theorem Numeral.numberTail_append {text : List Char} (numeral : Numeral text)
    (same : text = head :: tail) (outside : ∀ c ∈ behind.head?, ¬ c.isDigit)
    (pointless : '.' ∉ behind.head?) : head.isDigit ∧ numberTail (tail ++ behind) = tail := by
  cases numeral with
  | whole _ allDigits =>
      rw [same] at allDigits
      obtain ⟨digit, inside⟩ := List.forall_mem_cons.1 allDigits
      exact ⟨digit, numberTail_whole inside outside pointless⟩
  | pointed nonempty allDigits behindPoint =>
      obtain ⟨first, others, rfl⟩ := List.exists_cons_of_ne_nil nonempty
      obtain ⟨rfl, rfl⟩ := List.cons.inj same
      obtain ⟨digit, inside⟩ := List.forall_mem_cons.1 allDigits
      refine ⟨digit, ?_⟩
      change numberTail ((others ++ _) ++ _) = others ++ _
      rw [List.append_assoc, List.cons_append, numberTail_pointed inside,
        takeWhile_append_of_head behindPoint outside]

/-- The digits in front belong to the number. -/
theorem length_takeWhile_le_numberTail (rest : List Char) :
    (rest.takeWhile Char.isDigit).length ≤ (numberTail rest).length := by
  rw [numberTail]
  split
  · simp
  · exact Nat.le_refl _

/-- With more text a number gets no shorter. -/
theorem length_numberTail_le (text more : List Char) :
    (numberTail text).length ≤ (numberTail (text ++ more)).length := by
  obtain ⟨digits, behind, rfl, inside, outside⟩ := exists_run Char.isDigit text
  by_cases point : '.' ∈ behind.head?
  · obtain ⟨fraction, rfl⟩ := List.head?_eq_some_iff.1 point
    rw [List.append_assoc, List.cons_append, numberTail_pointed inside, numberTail_pointed inside]
    simpa using length_takeWhile_le Char.isDigit fraction more
  · calc (numberTail (digits ++ behind)).length
        = ((digits ++ behind).takeWhile Char.isDigit).length := by
          rw [numberTail_whole inside outside point, takeWhile_append_of_head inside outside]
      _ ≤ ((digits ++ behind ++ more).takeWhile Char.isDigit).length :=
          length_takeWhile_le Char.isDigit _ more
      _ ≤ (numberTail (digits ++ behind ++ more)).length := length_takeWhile_le_numberTail _

end Numbers

section Strings

variable {content : List Char}

/-- A string ends at its first quote. -/
theorem quoted_closed (quoteless : '"' ∉ content) (rest : List Char) :
    quoted (content ++ '"' :: rest) =
      ⟨.token (.string (String.ofList content)), '"' :: content ++ ['"']⟩ := by
  have inside : ∀ c ∈ content, decide (c ≠ '"') := by
    intro c present
    simpa using fun same : c = '"' => quoteless (same ▸ present)
  rw [quoted, takeWhile_append_of_head inside (by simp), dropWhile_append_of_head inside (by simp)]

/-- Without a quote all the rest is the content. -/
theorem quoted_open (quoteless : '"' ∉ content) :
    quoted content = ⟨.openString (String.ofList content), '"' :: content⟩ := by
  have inside : ∀ c ∈ content, decide (c ≠ '"') := by
    intro c present
    simpa using fun same : c = '"' => quoteless (same ▸ present)
  rw [quoted, List.takeWhile_eq_self_iff.2 inside, List.dropWhile_eq_nil_iff.2 inside]

/-- Every text is quoteless or has a first quote. -/
theorem quoteless_or_closed (rest : List Char) :
    '"' ∉ rest ∨ ∃ content after, '"' ∉ content ∧ rest = content ++ '"' :: after := by
  by_cases present : '"' ∈ rest
  · obtain ⟨content, after, same, quoteless⟩ := List.eq_append_cons_of_mem present
    exact .inr ⟨content, after, quoteless, same⟩
  · exact .inl present

end Strings

/-- A reserved word is its own kind. -/
theorem wordKind_reserved (word : Keyword) : wordKind word.text = .keyword word := by
  cases word <;> rfl

/-- A word that is not reserved is an identifier. -/
theorem wordKind_free {text : String} (free : ∀ word : Keyword, word.text ≠ text) :
    wordKind text = .identifier text := by
  have none : Keyword.ofText? text = none := by
    simp [Keyword.ofText?, free]
  rw [wordKind, none]

/-- The scanner takes a piece of the grammar from its own text. -/
theorem first_of_lexical (lexical : piece.Lexical) (text : piece.text = head :: tail) :
    first head tail = piece := by
  cases lexical with
  | mark mark => cases mark <;> (cases text; rfl)
  | number numeral =>
      have ends : ∀ c ∈ ([] : List Char).head?, ¬ c.isDigit := by simp
      obtain ⟨digit, taken⟩ := numeral.numberTail_append text ends (by simp)
      rw [List.append_nil] at taken
      cases text
      rw [first_digit _ digit, taken]
  | reserved word => cases word <;> (cases text; rfl)
  | identifier starts continues free =>
      cases text
      rw [first_word _ starts, List.takeWhile_eq_self_iff.2 continues, wordKind_free free]
  | string quoteless =>
      cases text
      exact quoted_closed quoteless []
  | openString quoteless =>
      cases text
      exact quoted_open quoteless
  | @comment content within =>
      cases text
      have inside : ∀ c ∈ '/' :: content, decide (c ≠ '\n') := by
        intro c present
        have : c ≠ '\n' := by
          rintro rfl
          simp [within] at present
        simpa using this
      change Piece.mk _ ('/' :: ('/' :: content).takeWhile _) = _
      rw [List.takeWhile_eq_self_iff.2 inside]
  | lineBreak => cases text; rfl
  | blank nonempty blanks =>
      cases text
      obtain ⟨blank, others⟩ := List.forall_mem_cons.1 blanks
      rw [first_blank _ blank, List.takeWhile_eq_self_iff.2 others]

/-- No piece is empty. -/
theorem Lexical.text_ne_nil (lexical : piece.Lexical) : piece.text ≠ [] := by
  cases lexical with
  | mark mark => cases mark <;> simp [Punctuator.text]
  | number numeral => cases numeral <;> simp_all
  | reserved word => cases word <;> simp [Keyword.text]
  | blank nonempty _ => exact nonempty
  | _ => simp

/-- A piece of the grammar is known by its text. -/
theorem Lexical.eq_of_text_eq {other : Piece} (lexical : piece.Lexical)
    (otherLexical : other.Lexical) (same : piece.text = other.text) : piece = other := by
  obtain ⟨head, tail, text⟩ := List.exists_cons_of_ne_nil lexical.text_ne_nil
  rw [← first_of_lexical lexical text, ← first_of_lexical otherLexical (same.symm.trans text)]

/-- Only strings and what separates tokens hold blanks and line breaks. -/
theorem Lexical.of_space (lexical : piece.Lexical) {space : Char}
    (spaced : isBlank space ∨ space = '\n') (present : space ∈ piece.text) :
    (∃ content, '"' ∉ content ∧
      (piece = ⟨.token (.string (String.ofList content)), '"' :: content ++ ['"']⟩ ∨
        piece = ⟨.openString (String.ofList content), '"' :: content⟩)) ∨
      ∃ trivia, piece.finding = .separator trivia := by
  have one : space = ' ' ∨ space = '\t' ∨ space = '\r' ∨ space = '\n' := by
    rcases spaced with blank | rfl
    · rcases isBlank_iff.1 blank with same | same | same <;> simp [same]
    · simp
  have noDigit : ¬ space.isDigit := by rcases one with rfl | rfl | rfl | rfl <;> decide
  have noWord : ¬ startsWord space ∧ ¬ continuesWord space := by
    rcases one with rfl | rfl | rfl | rfl <;> decide
  cases lexical with
  | mark mark =>
      exfalso
      rcases one with rfl | rfl | rfl | rfl <;>
        cases mark <;> simp [Punctuator.text] at present
  | number numeral =>
      cases numeral with
      | whole _ digits => exact absurd (digits _ present) noDigit
      | pointed _ digits fraction =>
          rcases List.mem_append.1 present with inside | inside
          · exact absurd (digits _ inside) noDigit
          · rcases List.mem_cons.1 inside with rfl | inside
            · simp at one
            · exact absurd (fraction _ inside) noDigit
  | reserved word =>
      exfalso
      rcases one with rfl | rfl | rfl | rfl <;>
        cases word <;> simp [Keyword.text] at present
  | identifier starts continues _ =>
      rcases List.mem_cons.1 present with rfl | inside
      · exact absurd starts noWord.1
      · exact absurd (continues _ inside) noWord.2
  | @string content quoteless => exact .inl ⟨content, quoteless, .inl rfl⟩
  | @openString content quoteless => exact .inl ⟨content, quoteless, .inr rfl⟩
  | comment | lineBreak | blank => exact .inr ⟨_, rfl⟩

/-- A string is a piece of the lexical grammar, closed or not. -/
theorem lexical_quoted (rest : List Char) : (quoted rest).Lexical := by
  rcases quoteless_or_closed rest with quoteless | ⟨content, after, quoteless, rfl⟩
  · rw [quoted_open quoteless]
    exact .openString quoteless
  · rw [quoted_closed quoteless]
    exact .string quoteless

/-- A word is a piece of the lexical grammar, reserved or not. -/
theorem lexical_word (starts : startsWord head) (continues : ∀ c ∈ tail, continuesWord c) :
    Lexical ⟨.token (wordKind (String.ofList (head :: tail))), head :: tail⟩ := by
  by_cases free : ∀ word : Keyword, word.text ≠ String.ofList (head :: tail)
  · rw [wordKind_free free]
    exact .identifier starts continues free
  · obtain ⟨word, reserved⟩ := not_forall_not.1 free
    rw [← reserved, wordKind_reserved]
    have text : word.text.toList = head :: tail := by rw [reserved, String.toList_ofList]
    rw [← text]
    exact .reserved word

/-- A punctuator of one character is written as this character. -/
theorem toList_text_of_singleMark? {mark : Punctuator} (found : singleMark? head = some mark) :
    mark.text.toList = [head] := by
  unfold singleMark? at found
  split at found <;> cases found <;> rfl

/-- A punctuator that an equals sign makes is written with it at the end. -/
theorem toList_text_of_withEqual? {mark longer : Punctuator}
    (found : withEqual? mark = some longer) : longer.text.toList = mark.text.toList ++ ['='] := by
  cases mark <;> cases found <;> rfl

/-- A punctuator is a piece of the lexical grammar, with an equals sign behind it or without. -/
theorem lexical_punctuation {mark : Punctuator} (found : singleMark? head = some mark)
    (rest : List Char) : (punctuation head rest mark).Lexical := by
  have text := toList_text_of_singleMark? found
  unfold punctuation
  split
  next _ longer extended =>
    have longerText := toList_text_of_withEqual? extended
    rw [text] at longerText
    have lexical := Lexical.mark longer
    rwa [longerText] at lexical
  next =>
    rw [← text]
    exact .mark mark

/-- What the scanner takes is a piece of the grammar or a single character. -/
theorem lexical_first_or_stray (head : Char) (rest : List Char) :
    (first head rest).Lexical ∨ first head rest = ⟨.stray head, [head]⟩ := by
  unfold first
  split
  next same => exact .inl (same ▸ .lineBreak)
  split
  next blank =>
    exact .inl (.blank (List.cons_ne_nil _ _)
      (List.forall_mem_cons.2 ⟨blank, fun c => List.mem_takeWhile_imp⟩))
  split
  next => exact .inl (lexical_quoted rest)
  split
  next digit => exact .inl (.number (numeral_numberTail digit rest))
  split
  next starts => exact .inl (lexical_word starts fun c => List.mem_takeWhile_imp)
  split
  next slashes =>
    obtain ⟨rfl, second⟩ := slashes
    obtain ⟨after, rfl⟩ := List.head?_eq_some_iff.1 second
    refine .inl (.comment fun present => ?_)
    simpa using List.mem_takeWhile_imp present
  split
  next mark found => exact .inl (lexical_punctuation found rest)
  next => exact .inr rfl

/-- A piece of the lexical grammar is no stray character. -/
theorem Lexical.ne_stray {character : Char} {text : List Char} (lexical : piece.Lexical) :
    piece ≠ ⟨.stray character, text⟩ := by
  rintro rfl
  cases lexical

/-- Whether a character is taken on its own does not depend on what follows it. -/
theorem first_eq_stray (stray : first head rest = ⟨.stray head, [head]⟩) (tail : List Char) :
    first head tail = ⟨.stray head, [head]⟩ := by
  unfold first at stray
  split at stray
  next => cases stray
  split at stray
  next => cases stray
  split at stray
  next => cases (lexical_quoted rest).ne_stray stray
  split at stray
  next => cases stray
  split at stray
  next => cases stray
  split at stray
  next => cases stray
  split at stray
  next mark found => cases (lexical_punctuation found rest).ne_stray stray
  next noBreak noBlank noQuote noDigit noWord _ _ none =>
    have noSlash : ¬ (head = '/' ∧ tail.head? = some '/') := by
      rintro ⟨rfl, _⟩
      cases none
    rw [first, if_neg noBreak, if_neg noBlank, if_neg noQuote, if_neg noDigit, if_neg noWord,
      if_neg noSlash, none]

/-- With more text a string gets no shorter. -/
theorem length_quoted_le (text more : List Char) :
    (quoted text).text.length ≤ (quoted (text ++ more)).text.length := by
  rcases quoteless_or_closed text with quoteless | ⟨content, after, quoteless, rfl⟩
  · rw [quoted_open quoteless]
    rcases quoteless_or_closed more with quotelessMore | ⟨content, after, quotelessMore, rfl⟩
    · rw [quoted_open (by simp [quoteless, quotelessMore])]
      simp
    · rw [← List.append_assoc, quoted_closed (by simp [quoteless, quotelessMore])]
      simp
  · rw [List.append_assoc, List.cons_append, quoted_closed quoteless, quoted_closed quoteless]

/-- With more text a punctuator gets no shorter. -/
theorem length_punctuation_le (head : Char) (text more : List Char) (mark : Punctuator) :
    (punctuation head text mark).text.length ≤
      (punctuation head (text ++ more) mark).text.length := by
  cases text with
  | nil =>
      obtain ⟨tail, longer, _⟩ := punctuation_text head more mark
      rw [List.nil_append, longer]
      simp [punctuation]
  | cons next others =>
      by_cases equal : next = '='
      · rw [equal]
        cases mark <;> exact Nat.le_refl _
      · simp [punctuation, equal]

/-- With more text the first piece gets no shorter. -/
theorem length_first_le (head : Char) (text more : List Char) :
    (first head text).text.length ≤ (first head (text ++ more)).text.length := by
  have runs := fun p => Nat.succ_le_succ (length_takeWhile_le p text more)
  unfold first
  split
  next => exact Nat.le_refl _
  split
  next => exact runs isBlank
  split
  next => exact length_quoted_le text more
  split
  next => exact Nat.succ_le_succ (length_numberTail_le text more)
  split
  next => exact runs continuesWord
  by_cases slashes : head = '/' ∧ text.head? = some '/'
  · have slashesBehind : head = '/' ∧ (text ++ more).head? = some '/' := by
      simp [slashes]
    rw [if_pos slashes, if_pos slashesBehind]
    exact runs _
  · rw [if_neg slashes]
    split
    next mark found =>
      split
      next slashesBehind =>
        -- The second slash is in the text behind: the text itself is empty.
        cases text with
        | nil => simp [punctuation]
        | cons next others => exact absurd slashesBehind slashes
      next => exact length_punctuation_le head text more mark
    next none =>
      split
      next => simp
      next => exact Nat.le_refl _

/-- No piece of the grammar begins where a character is taken on its own. -/
theorem not_lexical_of_stray (stray : first head rest = ⟨.stray head, [head]⟩)
    (lexical : piece.Lexical) : ¬ piece.text <+: head :: rest := by
  intro here
  obtain ⟨first, tail, text⟩ := List.exists_cons_of_ne_nil lexical.text_ne_nil
  obtain ⟨behind, whole⟩ := here
  rw [text] at whole
  cases whole
  have taken := first_of_lexical lexical text
  rw [first_eq_stray stray] at taken
  exact lexical.ne_stray taken.symm

/-- What the scanner takes is the longest piece of the grammar, if one begins there. -/
theorem longest_first (lexical : (first head rest).Lexical) :
    (first head rest).Longest (head :: rest) where
  lexical := lexical
  here := by
    obtain ⟨tail, text, within⟩ := first_text head rest
    rw [text]
    exact (List.prefix_cons_inj head).2 within
  longest := by
    intro other otherLexical here
    obtain ⟨first, tail, text⟩ := List.exists_cons_of_ne_nil otherLexical.text_ne_nil
    obtain ⟨behind, whole⟩ := here
    rw [text] at whole
    cases whole
    have longer := length_first_le head tail behind
    rwa [first_of_lexical otherLexical text] at longer

/-- Only one piece is the longest. -/
theorem Longest.unique {source : List Char} {other : Piece} (longest : piece.Longest source)
    (otherLongest : other.Longest source) : piece = other := by
  have sameLength : piece.text.length = other.text.length :=
    Nat.le_antisymm (otherLongest.longest piece longest.lexical longest.here)
      (longest.longest other otherLongest.lexical otherLongest.here)
  have sameText := List.prefix_of_prefix_length_le longest.here otherLongest.here sameLength.le
  exact longest.lexical.eq_of_text_eq otherLongest.lexical
    (sameText.eq_of_length sameLength)

end Piece

end TreeWalk
