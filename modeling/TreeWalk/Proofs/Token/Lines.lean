import TreeWalk.Proofs.Text.Bytes
import TreeWalk.Proofs.Token.Tiling

/-!
# Lines of tokens

The line of a span is not found from its offset but counted along the scan. It is still the line
of that offset: one more than the line breaks among the bytes in front, be they in strings, in
comments or on their own.
-/

namespace TreeWalk

/-- The number of line breaks among the first bytes of a source. -/
def lineBreaksBefore (source : String) (offset : Nat) : Nat :=
  (source.toUTF8.data.toList.take offset).count '\n'.toUInt8

/-- The line of the span is that of its offset. -/
def Span.OnItsLine (source : String) (span : Span) : Prop :=
  span.line = 1 + lineBreaksBefore source span.offset

instance (source : String) (span : Span) : Decidable (span.OnItsLine source) :=
  inferInstanceAs (Decidable (_ = _))

/-- The line breaks in front of where a text ends are those in the text. -/
theorem lineBreaksBefore_byteLength {source : String} {before after : List Char}
    (whole : source.toList = before ++ after) :
    lineBreaksBefore source (Place.byteLength before) = before.count '\n' := by
  rw [lineBreaksBefore, Text.toUTF8_toList, whole, Text.bytes_append, ← Text.length_bytes,
    List.take_left, Text.count_bytes (by decide)]

/-- Passing over the front of a source leads to the line of its end. -/
theorem Place.line_advance {source : String} {before after : List Char}
    (whole : source.toList = before ++ after) :
    (Place.advance {} before).line =
      1 + lineBreaksBefore source (Place.advance {} before).offset := by
  have offset : (Place.advance {} before).offset = byteLength before := Nat.zero_add _
  rw [offset, lineBreaksBefore_byteLength whole]
  rfl

/-- A text that stands in the source has the line on which it starts. -/
theorem Place.Shows.onItsLine {source : String} {text : List Char} {span : Span}
    (shows : Place.Shows {} source.toList text span) : span.OnItsLine source := by
  obtain ⟨before, after, whole, rfl⟩ := shows
  rw [List.append_assoc] at whole
  exact line_advance whole

/-- A token of a scan has the line on which it starts. -/
theorem Token.onItsLine_of_mem_scan {source : String} {token : Token}
    (present : token ∈ (scan source).produced) : token.span.OnItsLine source := by
  obtain ⟨_, _, _, shows⟩ := (tiled_scan source).shows_token present
  exact shows.onItsLine

/-- An unexpected character has its own line, and the end of a string that no quote closes has the
last one. -/
theorem LexicalError.onItsLine_of_mem_scan {source : String} {error : LexicalError}
    (met : error ∈ (scan source).errors) : error.span.OnItsLine source := by
  cases error with
  | unexpectedCharacter character span =>
      exact ((tiled_scan source).shows_unexpectedCharacter met).onItsLine
  | unterminatedString content span =>
      obtain ⟨front, others, placed⟩ := List.append_of_mem met
      obtain ⟨_, rfl, _⟩ := (tiled_scan source).of_unterminatedString placed
      exact Place.line_advance (List.append_nil _).symm

/-- Line numbers are exact. Whatever the source, the line of every token and of every error of its
scan is one more than the number of line breaks in front of its offset. -/
theorem lines_are_exact (source : String) :
    (∀ token ∈ (scan source).produced, token.span.OnItsLine source) ∧
      ∀ error ∈ (scan source).errors, error.span.OnItsLine source :=
  ⟨fun _ => Token.onItsLine_of_mem_scan, fun _ => LexicalError.onItsLine_of_mem_scan⟩

/-- Behind a comment, a carriage return, a string over two lines and a blank line stand a name, a
stray character and a string that is still open two lines further down. -/
theorem lines_are_exact_mixed :
    let source := "// é\r\n\"one\ntwo\"\n\nname @ \"open\n\n"
    (⟨.identifier "name", ⟨5, 18, 4⟩⟩ ∈ (scan source).produced ∧
      lineBreaksBefore source 18 = 4) ∧
    (.unexpectedCharacter '@' ⟨5, 23, 1⟩ ∈ (scan source).errors ∧
      lineBreaksBefore source 23 = 4) ∧
    (.unterminatedString "open\n\n" ⟨7, 32, 0⟩ ∈ (scan source).errors ∧
      lineBreaksBefore source 32 = 6) := by
  intro source
  obtain ⟨tokens, errors⟩ := lines_are_exact source
  have name : ⟨.identifier "name", ⟨5, 18, 4⟩⟩ ∈ (scan source).produced := by decide +kernel
  have stray : .unexpectedCharacter '@' ⟨5, 23, 1⟩ ∈ (scan source).errors := by decide +kernel
  have opened : .unterminatedString "open\n\n" ⟨7, 32, 0⟩ ∈ (scan source).errors := by
    decide +kernel
  have nameLine : 5 = 1 + lineBreaksBefore source 18 := tokens _ name
  have strayLine : 5 = 1 + lineBreaksBefore source 23 := errors _ stray
  have openedLine : 7 = 1 + lineBreaksBefore source 32 := errors _ opened
  exact ⟨⟨name, by omega⟩, ⟨stray, by omega⟩, ⟨opened, by omega⟩⟩

end TreeWalk
