import TreeWalk.Proofs.Double.Numerals
import TreeWalk.Proofs.Session.Modes
import TreeWalk.Proofs.Session.Stages

/-!
# Numbers read back

The printed form of a finite number is an expression of the language: a numeral, or a minus sign
in front of one. A session that is given this text reads the number itself and negates it again
where it has to, so what it answers equals what was printed, zeros of both signs included.
-/

namespace TreeWalk

namespace Piece

/-- A minus sign is a piece of its own. -/
theorem longest_minus (rest : List Char) :
    Longest ⟨.token (.punctuator .minus), ['-']⟩ (['-'] ++ rest) := by
  have alone : first '-' rest = ⟨.token (.punctuator .minus), ['-']⟩ := by
    change punctuation '-' rest .minus = _
    unfold punctuation
    split
    next longer => cases longer
    next => rfl
  have lexical : Lexical ⟨.token (.punctuator .minus), ['-']⟩ := .mark .minus
  rw [← alone] at lexical ⊢
  exact longest_first lexical

variable {text : List Char}

/-- Where a numeral is all that is left, it is scanned to its number. -/
theorem Numeral.munched (numeral : Numeral text) (place : Place) :
    Munched place text
      [⟨.number (Double.ofDecimalText text) (String.ofList text), place.span text⟩] [] := by
  have longest : Longest _ (text ++ []) := longest_of_token (.number numeral) (by simp)
  have munched := Munched.token longest (.finish : Munched (place.advance text) [] [] [])
  rwa [List.append_nil] at munched

end Piece

namespace Session

variable {session : Session} {source : String} {tokens : List Token} {value : Expr} {result : Value}

/-- In expression mode the answer to the text of an expression is its value. -/
theorem evaluate_of_expression (bare : session.mode = .expression)
    (scanned : scan source = ⟨tokens, []⟩) (written : value.Written tokens)
    (shaped : value.WellShaped)
    (evaluates : value.eval session.scopes = ⟨.ok result, session.scopes, []⟩) :
    session.evaluate source = (⟨some result, [], []⟩, session) := by
  have read : Grammar.program session.mode (scan source).produced = ⟨[.expression value], []⟩ := by
    rw [bare, scanned]
    exact Grammar.program_eq_expression_iff.2 ⟨shaped, written⟩
  have ran : (Node.expression value).eval session.scopes =
      ⟨.ok (some result), session.scopes, []⟩ := by
    rw [Node.eval, Action.bind_of_ok (by rw [evaluates]), evaluates]
    rfl
  rw [evaluate_of_read (by rw [scanned]) (by rw [read]), read, execute]
  simp [Node.run, ran]

end Session

namespace Double

variable {value : Float}

section Numerals

variable {session : Session} (bare : session.mode = .expression) {text : String}
  {magnitude : List Char} (numeral : Piece.Numeral magnitude)
include bare numeral

/-- A numeral is evaluated to its number. -/
theorem evaluate_numeral (written : text.toList = magnitude) :
    session.evaluate text = (⟨some (.number (ofDecimalText magnitude)), [], []⟩, session) := by
  have munched := numeral.munched {}
  rw [← written] at munched
  rw [← written]
  exact session.evaluate_of_expression bare ((scan_eq_iff_munched text _ _).2 munched)
    .terminal rfl rfl

/-- A numeral behind a minus sign is evaluated to the negative of its number. -/
theorem evaluate_negated (written : text.toList = '-' :: magnitude) :
    session.evaluate text = (⟨some (.number (-ofDecimalText magnitude)), [], []⟩, session) := by
  have munched : Munched {} ('-' :: magnitude) _ _ :=
    .token (Piece.longest_minus magnitude) (numeral.munched _)
  rw [← written] at munched
  refine session.evaluate_of_expression bare ((scan_eq_iff_munched text _ _).2 munched)
    (@Expr.Written.unary .negate _ _ _ .terminal) ?_ rfl
  exact ⟨rfl, Nat.zero_le _⟩

end Numerals

/-- A decimal of the magnitude of a number with a clear sign is scanned to this number. -/
theorem scan_magnitude {text : String} {decimal : Decimal}
    (magnitude : ofDecimal decimal = code value) (positive : isNegative value = false)
    (written : text.toList = decimal.text) :
    scan text = ⟨[⟨.number value text, ⟨1, 0, text.utf8ByteSize⟩⟩], []⟩ := by
  have munched := decimal.numeral_text.munched {}
  rw [ofDecimalText_magnitude magnitude positive, ← written, String.ofList_toList, Place.span,
    Place.byteLength_toList] at munched
  exact (scan_eq_iff_munched text _ _).2 munched

/-- Numbers read back as they print. In expression mode a session answers to the printed form of
a finite number with a number that equals it, without an error and without any effect. And where
the sign is clear, what is printed of the number and what is listed of it as a literal are each
scanned to a single token, of exactly this number. -/
theorem numbers_read_back {value : Float} (finite : value.isFinite = true) :
    (∀ session : Session, session.mode = .expression →
      ∃ read, session.evaluate (Value.number value).text =
          (⟨some (.number read), [], []⟩, session) ∧ (read == value) = true) ∧
    (isNegative value = false → ∀ text ∈ [printed value, literal value],
      scan text = ⟨[⟨.number value text, ⟨1, 0, text.utf8ByteSize⟩⟩], []⟩) := by
  obtain ⟨shown, shownMagnitude, shownText⟩ := exists_printed finite
  obtain ⟨listed, listedMagnitude, listedText⟩ := exists_literal finite
  have reads : ofDecimalText shown.text = ofCode (code value) := by
    rw [ofDecimalText_text, shownMagnitude]
  refine ⟨fun session bare => ?_, fun positive => ?_⟩
  -- Zeros of both signs are printed without one, so a zero is read back as the positive one.
  · by_cases below : isNegative value ∧ code value ≠ 0
    · rw [if_pos below] at shownText
      refine ⟨_, evaluate_negated bare shown.numeral_text shownText, ?_⟩
      rw [reads, neg_ofCode_code (Nat.le_of_lt (isFinite_iff.1 finite)) below.1]
      exact beq_self finite
    · rw [if_neg below] at shownText
      refine ⟨_, evaluate_numeral bare shown.numeral_text shownText, ?_⟩
      rw [reads]
      by_cases zero : code value = 0
      · rw [zero]
        exact beq_of_code_eq_zero zero
      · have positive : isNegative value = false := by simpa [zero] using below
        rw [ofCode_code positive]
        exact beq_self finite
  · rw [if_neg (by simp [positive])] at shownText
    rw [signed, positive] at listedText
    intro text present
    rcases List.mem_pair.1 present with rfl | rfl
    · exact scan_magnitude shownMagnitude positive shownText
    · exact scan_magnitude listedMagnitude positive listedText

/-- A tenth below zero is read back as a number that equals it, and a tenth as itself. -/
theorem numbers_read_back_tenths :
    (∀ session : Session, session.mode = .expression →
      ∃ read, session.evaluate (Value.number (Float.ofBits 0xbfb999999999999a)).text =
          (⟨some (.number read), [], []⟩, session) ∧
        (read == Float.ofBits 0xbfb999999999999a) = true) ∧
    (∀ text ∈ [printed (Float.ofBits 0x3fb999999999999a),
        literal (Float.ofBits 0x3fb999999999999a)],
      scan text =
        ⟨[⟨.number (Float.ofBits 0x3fb999999999999a) text, ⟨1, 0, text.utf8ByteSize⟩⟩], []⟩) :=
  ⟨(numbers_read_back (by decide +kernel)).1,
    (numbers_read_back (by decide +kernel)).2 (by decide +kernel)⟩

end Double

end TreeWalk
