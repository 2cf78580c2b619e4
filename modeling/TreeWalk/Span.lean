/-!
# Spans of source text

A place counts lines from one and bytes from zero. A span is the stretch of text
that starts at a place; it belongs to the line on which it starts.
-/

namespace TreeWalk

/-- A stretch of source text: its starting line, its byte offset and its length in bytes. -/
structure Span where
  line : Nat := 1
  offset : Nat := 0
  length : Nat := 0
deriving DecidableEq, Repr, Inhabited

namespace Span

/-- The byte offset just past the span. -/
def finish (span : Span) : Nat :=
  span.offset + span.length

/-- The empty span just past the end, on the same line. -/
def after (span : Span) : Span where
  line := span.line
  offset := span.finish
  length := 0

end Span

/-- A point between two characters of source text. -/
structure Place where
  line : Nat := 1
  offset : Nat := 0
deriving DecidableEq, Repr, Inhabited

namespace Place

/-- The number of bytes that the characters take in UTF-8. -/
def byteLength (text : List Char) : Nat :=
  text.foldr (fun character length => character.utf8Size + length) 0

/-- The place reached by passing over the text: each line break starts a line. -/
def advance (place : Place) (text : List Char) : Place where
  line := place.line + text.count '\n'
  offset := place.offset + byteLength text

/-- The span of a text that starts at the place. -/
def span (place : Place) (text : List Char) : Span where
  line := place.line
  offset := place.offset
  length := byteLength text

/-- The empty span at the place. -/
def point (place : Place) : Span where
  line := place.line
  offset := place.offset
  length := 0

@[simp] theorem byteLength_nil : byteLength [] = 0 := rfl

@[simp] theorem byteLength_cons (head : Char) (tail : List Char) :
    byteLength (head :: tail) = head.utf8Size + byteLength tail := rfl

/-- The bytes of two texts add up. -/
@[simp] theorem byteLength_append (first second : List Char) :
    byteLength (first ++ second) = byteLength first + byteLength second := by
  induction first with
  | nil => rw [List.nil_append, byteLength_nil, Nat.zero_add]
  | cons head tail inductionHypothesis =>
      rw [List.cons_append, byteLength_cons, byteLength_cons, inductionHypothesis, Nat.add_assoc]

/-- Passing over two texts in turn is passing over their concatenation. -/
theorem advance_append (place : Place) (first second : List Char) :
    place.advance (first ++ second) = (place.advance first).advance second := by
  simp [advance, List.count_append, Nat.add_assoc]

end Place

end TreeWalk
