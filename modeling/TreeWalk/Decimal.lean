/-!
# Positional decimals

A decimal is written with digits and at most one point, without sign or exponent.
`text` writes one and `ofText` reads what the number pattern of the language accepts.
-/

namespace TreeWalk

/-- The number `coefficient / 10 ^ places`. -/
structure Decimal where
  coefficient : Nat
  places : Nat
deriving DecidableEq, Repr

namespace Decimal

/-- The digits, with zeros in front so that one is left before the point. -/
def digits (decimal : Decimal) : List Char :=
  let significant := Nat.toDigits 10 decimal.coefficient
  List.replicate (decimal.places + 1 - significant.length) '0' ++ significant

/-- The digits with a point before the last ones; no point where there are no places. -/
def text (decimal : Decimal) : List Char :=
  let whole := decimal.digits.length - decimal.places
  if decimal.places = 0 then decimal.digits
  else decimal.digits.take whole ++ '.' :: decimal.digits.drop whole

/-- The digits count as one number, and those after the point count the places. -/
def ofText (text : List Char) : Decimal :=
  let whole := text.takeWhile Char.isDigit
  let fraction := (text.dropWhile Char.isDigit).tail
  { coefficient := Nat.ofDigitChars 10 (whole ++ fraction) 0
    places := fraction.length }

/-- A decimal is written in the digits from zero to nine. -/
theorem isDigit_of_mem_digits {decimal : Decimal} {character : Char}
    (present : character ∈ decimal.digits) : character.isDigit := by
  rcases List.mem_append.1 present with zero | significant
  · rw [List.eq_of_mem_replicate zero]; rfl
  · exact Nat.isDigit_of_mem_toDigits (by decide) (by decide) significant

/-- In front of the point of a decimal stands at least one digit. -/
theorem places_lt_length_digits (decimal : Decimal) :
    decimal.places < decimal.digits.length := by
  simp only [digits, List.length_append, List.length_replicate]
  omega

/-- The digits of a decimal are those of its coefficient, whatever zeros stand in front. -/
theorem ofDigitChars_digits (decimal : Decimal) :
    Nat.ofDigitChars 10 decimal.digits 0 = decimal.coefficient := by
  rw [digits, Nat.ofDigitChars_append, Nat.ofDigitChars_replicate_zero, Nat.mul_zero,
    Nat.ofDigitChars_toDigits (by decide) (by decide)]

/-- A decimal is what its text reads as. -/
theorem ofText_text (decimal : Decimal) : ofText decimal.text = decimal := by
  have allDigits : ∀ character ∈ decimal.digits, character.isDigit := fun _ =>
    isDigit_of_mem_digits
  by_cases none : decimal.places = 0
  · have whole : decimal.digits.takeWhile Char.isDigit = decimal.digits := by
      rw [← List.append_nil decimal.digits,
        List.takeWhile_append_of_pos (by simpa using allDigits)]
      rfl
    have rest : decimal.digits.dropWhile Char.isDigit = [] := by
      have both := List.takeWhile_append_dropWhile (p := Char.isDigit) (l := decimal.digits)
      rw [whole] at both
      simpa using both
    simp only [ofText, text, none, if_true, whole, rest, List.tail_nil, List.append_nil,
      ofDigitChars_digits, List.length_nil]
    exact congrArg (Decimal.mk decimal.coefficient) none.symm
  · have long := decimal.places_lt_length_digits
    generalize split : decimal.digits.length - decimal.places = front
    have wholeDigits : ∀ character ∈ decimal.digits.take front, character.isDigit :=
      fun _ present => allDigits _ (List.mem_of_mem_take present)
    have point : Char.isDigit '.' = false := rfl
    simp only [ofText, text, none, if_false, split,
      List.takeWhile_append_of_pos wholeDigits, List.dropWhile_append_of_pos wholeDigits,
      List.takeWhile_cons_of_neg, List.dropWhile_cons_of_neg, point, Bool.false_eq_true,
      not_false_eq_true, List.tail_cons, List.append_nil, List.take_append_drop,
      ofDigitChars_digits, List.length_drop]
    exact congrArg (Decimal.mk decimal.coefficient) (by omega)

end Decimal

end TreeWalk
