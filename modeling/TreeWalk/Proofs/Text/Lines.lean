import TreeWalk.Proofs.Text.Bytes

/-!
# Lines of texts

A line ends at a line break, and a carriage return in front of the break belongs to the break.
What follows the last break is a line too, unless it is empty. Characters and bytes are cut into
the same lines.
-/

namespace TreeWalk.Text

section Lines

variable {α : Type} [DecidableEq α]

/-- The line without the mark at its end, if it ends in one. -/
def withoutMark (mark : α) (line : List α) : List α :=
  if line.getLast? = some mark then line.dropLast else line

/-- The lines of a text: what ends at a line break, without the one mark that may stand in front
of the break, and what follows the last break, unless it is empty. -/
def linesBy (lineBreak mark : α) (text : List α) : List (List α) :=
  (text.splitOn lineBreak).dropLast.map (withoutMark mark) ++
    (text.splitOn lineBreak).getLast?.toList.filter (· ≠ [])

variable {lineBreak mark : α}

/-- A mark at the end of a line is left out. -/
theorem withoutMark_concat (mark : α) (line : List α) :
    withoutMark mark (line ++ [mark]) = line := by
  rw [withoutMark, List.getLast?_concat, if_pos rfl, List.dropLast_concat]

/-- A line that does not end in the mark stays as it is. -/
theorem withoutMark_of_ne {line : List α} (other : line.getLast? ≠ some mark) :
    withoutMark mark line = line :=
  if_neg other

/-- The mark is looked for at the end of a line, whatever stands in front. -/
theorem withoutMark_cons {head : α} {tail : List α} (more : tail ≠ []) :
    withoutMark mark (head :: tail) = head :: withoutMark mark tail := by
  rw [withoutMark, withoutMark, List.getLast?_cons_of_ne_nil more,
    List.dropLast_cons_of_ne_nil more]
  split <;> rfl

/-- A line from which the mark was taken, or not, is the line again with the mark, or without. -/
theorem eq_or_eq_concat (mark : α) (line : List α) :
    line = withoutMark mark line ∨ line = withoutMark mark line ++ [mark] := by
  by_cases ends : line.getLast? = some mark
  case pos =>
    obtain ⟨front, rfl⟩ := List.getLast?_eq_some_iff.1 ends
    exact .inr (by rw [withoutMark_concat])
  case neg => exact .inl (withoutMark_of_ne ends).symm

/-- An empty text has no lines. -/
theorem linesBy_nil (lineBreak mark : α) : linesBy lineBreak mark [] = [] := by
  rw [linesBy, List.splitOn_nil]
  rfl

/-- Text without a line break is a line. -/
theorem linesBy_rest {text : List α} (unbroken : lineBreak ∉ text) (nonempty : text ≠ []) :
    linesBy lineBreak mark text = [text] := by
  rw [linesBy, List.splitOn_eq_singleton unbroken]
  simp [nonempty]

/-- Behind a line break the lines are those of the text there. -/
theorem linesBy_line {front : List α} (unbroken : lineBreak ∉ front) (more : List α) :
    linesBy lineBreak mark (front ++ lineBreak :: more) =
      withoutMark mark front :: linesBy lineBreak mark more := by
  have others : more.splitOn lineBreak ≠ [] := List.splitOn_ne_nil lineBreak more
  rw [linesBy, List.splitOn_append_cons_self_of_not_mem unbroken,
    List.dropLast_cons_of_ne_nil others, List.getLast?_cons_of_ne_nil others]
  rfl

/-- What holds of a text without line breaks, and goes on from what follows a line break to the
text with a line in front, holds of every text. -/
theorem lines_induction (lineBreak : α) {motive : List α → Prop} (nil : motive [])
    (rest : ∀ text, lineBreak ∉ text → text ≠ [] → motive text)
    (line : ∀ front more, lineBreak ∉ front → motive more → motive (front ++ lineBreak :: more))
    (text : List α) : motive text := by
  by_cases broken : lineBreak ∈ text
  case pos =>
    obtain ⟨front, more, whole, unbroken⟩ := List.eq_append_cons_of_mem broken
    have shorter : more.length < text.length := by
      rw [whole, List.length_append, List.length_cons]
      omega
    rw [whole]
    exact line front more unbroken (lines_induction lineBreak nil rest line more)
  case neg =>
    cases text with
    | nil => exact nil
    | cons => exact rest _ broken (List.cons_ne_nil _ _)
termination_by text.length
decreasing_by exact shorter

end Lines

/-- The lines of a string. -/
def linesOf (text : String) : List String :=
  (linesBy '\n' '\r' text.toList).map String.ofList

/-- A text has a line break exactly where its bytes have one. -/
theorem lineBreak_mem_bytes {text : List Char} : '\n'.toUInt8 ∈ bytes text ↔ '\n' ∈ text := by
  rw [← List.count_pos_iff, ← List.count_pos_iff, count_bytes (by decide)]

/-- The bytes of a line without its carriage return. -/
theorem withoutMark_bytes (line : List Char) :
    withoutMark '\r'.toUInt8 (bytes line) = bytes (withoutMark '\r' line) := by
  by_cases ends : line.getLast? = some '\r'
  case pos =>
    obtain ⟨front, rfl⟩ := List.getLast?_eq_some_iff.1 ends
    rw [withoutMark_concat, bytes_append, bytes_cons, bytes_nil, encode_ascii (by decide),
      List.append_nil, withoutMark_concat]
  case neg =>
    rw [withoutMark_of_ne ends, withoutMark_of_ne (ends ∘ (getLast?_bytes (by decide)).1)]

/-- The lines of the bytes are the bytes of the lines. -/
theorem linesBy_bytes (text : List Char) :
    linesBy '\n'.toUInt8 '\r'.toUInt8 (bytes text) = (linesBy '\n' '\r' text).map bytes := by
  induction text using lines_induction '\n' with
  | nil => rw [bytes_nil, linesBy_nil, linesBy_nil, List.map_nil]
  | rest text unbroken nonempty =>
      have some : bytes text ≠ [] := by
        intro none
        obtain ⟨head, tail, rfl⟩ := List.exists_cons_of_ne_nil nonempty
        exact String.utf8EncodeChar_ne_nil (List.append_eq_nil_iff.1 none).1
      rw [linesBy_rest unbroken nonempty, linesBy_rest (unbroken ∘ lineBreak_mem_bytes.1) some]
      rfl
  | line front more unbroken inductionHypothesis =>
      rw [linesBy_line unbroken, bytes_append, bytes_cons, encode_ascii (by decide),
        List.singleton_append, linesBy_line (unbroken ∘ lineBreak_mem_bytes.1), withoutMark_bytes,
        inductionHypothesis, List.map_cons]

end TreeWalk.Text
