import TreeWalk.Proofs.Double.Bits
import TreeWalk.Proofs.Token.Rescan

/-!
# Numerals

What is printed of a number is a numeral behind at most a minus sign, and it is scanned as the
number that it was printed of. Both printed forms take a decimal that is nearest to no other
double, the one as few digits of it as will do and the other, for a whole number, all of them.
-/

namespace TreeWalk

/-- A decimal is written as a numeral. -/
theorem Decimal.numeral_text (decimal : Decimal) : Piece.Numeral decimal.text := by
  have allDigits : ∀ c ∈ decimal.digits, c.isDigit := fun _ => isDigit_of_mem_digits
  have long := decimal.places_lt_length_digits
  rw [text]
  split
  · refine .whole ?_ allDigits
    rintro none
    simp [none] at long
  · refine .pointed ?_ (fun c present => allDigits c (List.mem_of_mem_take present))
      fun c present => allDigits c (List.mem_of_mem_drop present)
    intro none
    have empty := congrArg List.length none
    rw [List.length_take, List.length_nil] at empty
    omega

namespace Double

/-- What a decimal is read as. -/
theorem ofDecimalText_text (decimal : Decimal) :
    ofDecimalText decimal.text = ofCode (ofDecimal decimal) := by
  rw [ofDecimalText, Decimal.ofText_text]

/-- A whole magnitude is what its exact digits with a zero behind the point read as. -/
theorem ofDecimal_whole {code : Nat} (finite : code < infinityCode)
    (whole : units code % 1 <<< unitPlaces = 0) :
    ofDecimal ⟨units code >>> unitPlaces * 10, 1⟩ = code := by
  have exact (magnitude places : Nat) (whole : magnitude % 1 <<< places = 0) :
      (magnitude >>> places * 10) <<< places = magnitude * 10 := by
    rw [Nat.shiftLeft_eq, Nat.one_mul] at whole
    rw [Nat.shiftLeft_eq, Nat.shiftRight_eq_div_pow, Nat.mul_right_comm,
      Nat.div_mul_cancel (Nat.dvd_of_mod_eq_zero whole)]
  rw [ofDecimal, exact _ _ whole]
  exact nearestUnits_mul finite (by decide)

/-- Nothing is read as more than infinity. -/
theorem ofDecimal_le (decimal : Decimal) : ofDecimal decimal ≤ infinityCode :=
  Nat.min_le_right _ _

variable {value : Float}

/-- A decimal of the magnitude of a value with a clear sign reads as this value. -/
theorem ofDecimalText_magnitude {decimal : Decimal} (magnitude : ofDecimal decimal = code value)
    (positive : isNegative value = false) : ofDecimalText decimal.text = value := by
  rw [ofDecimalText_text, magnitude, ofCode_code positive]

/-- The form of a finite value is a decimal that reads as its magnitude, behind a minus sign if
the value is less than zero. -/
theorem exists_printed (finite : value.isFinite = true) :
    ∃ decimal, ofDecimal decimal = code value ∧
      (printed value).toList =
        if isNegative value ∧ code value ≠ 0 then '-' :: decimal.text else decimal.text := by
  have bound := isFinite_iff.1 finite
  by_cases zero : code value = 0
  · refine ⟨⟨0, 0⟩, by rw [zero]; decide +kernel, ?_⟩
    rw [printed, String.toList_ofList, if_pos zero, if_neg (fun both => both.2 zero)]
    decide
  · refine ⟨shortest (code value), ofDecimal_shortest bound, ?_⟩
    rw [printed, String.toList_ofList, if_neg zero, if_neg (by omega), if_neg (by omega), signed]
    simp only [zero, ne_eq, not_false_eq_true, and_true]

/-- The form of a finite literal is a decimal that reads as its magnitude, behind a minus sign if
its sign is set. -/
theorem exists_literal (finite : value.isFinite = true) :
    ∃ decimal, ofDecimal decimal = code value ∧
      (literal value).toList = signed value decimal.text := by
  have bound := isFinite_iff.1 finite
  by_cases whole : units (code value) % 1 <<< unitPlaces = 0
  · refine ⟨_, ofDecimal_whole bound whole, ?_⟩
    rw [literal, String.toList_ofList, if_neg (by omega), if_neg (by omega), if_pos whole]
  · refine ⟨shortest (code value), ofDecimal_shortest bound, ?_⟩
    rw [literal, String.toList_ofList, if_neg (by omega), if_neg (by omega), if_neg whole]

end Double

end TreeWalk
