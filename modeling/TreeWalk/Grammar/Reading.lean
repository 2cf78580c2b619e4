import TreeWalk.Error

/-!
# Readings

A rule of the grammar reads from the front of a token list. Its reading says what it
made of the tokens, or why it stopped, and which tokens it left. The bound on what is
left is part of the type: it is what lets rules call each other without end in sight
and still end.
-/

namespace TreeWalk.Grammar

/-- What a rule read, and the tokens that it left, of which there are at most `limit`. -/
structure Reading (α : Type) (limit : Nat) where
  outcome : Except SyntaxError α
  rest : List Token
  bounded : rest.length ≤ limit

namespace Reading

variable {α β : Type} {inner limit : Nat}

/-- A successful reading. -/
def accept (value : α) (rest : List Token)
    (bounded : rest.length ≤ limit := by
      (try simp only [List.length_cons, List.length_nil] at *); omega) :
    Reading α limit :=
  ⟨.ok value, rest, bounded⟩

/-- A failed reading. -/
def reject (error : SyntaxError) (rest : List Token)
    (bounded : rest.length ≤ limit := by
      (try simp only [List.length_cons, List.length_nil] at *); omega) :
    Reading α limit :=
  ⟨.error error, rest, bounded⟩

/-- Reads on where the first reading succeeded; a failure stands as it is. -/
def andThen (first : Reading α inner)
    (next : (value : α) → (rest : List Token) → rest.length ≤ inner → Reading β limit)
    (within : inner ≤ limit := by
      (try simp only [List.length_cons, List.length_nil] at *); omega) :
    Reading β limit :=
  match first with
  | ⟨.ok value, rest, bounded⟩ => next value rest bounded
  | ⟨.error error, rest, bounded⟩ => ⟨.error error, rest, Nat.le_trans bounded within⟩

/-- The reading with its value replaced. -/
def map (change : α → β) (reading : Reading α inner)
    (within : inner ≤ limit := by
      (try simp only [List.length_cons, List.length_nil] at *); omega) :
    Reading β limit :=
  ⟨reading.outcome.map change, reading.rest, Nat.le_trans reading.bounded within⟩

/-- The reading under a larger bound. -/
def widen (reading : Reading α inner)
    (within : inner ≤ limit := by
      (try simp only [List.length_cons, List.length_nil] at *); omega) :
    Reading α limit :=
  ⟨reading.outcome, reading.rest, Nat.le_trans reading.bounded within⟩

section Lemmas

variable (value : α) (error : SyntaxError) (rest : List Token) (change : α → β)
  (reading : Reading α inner) (within : inner ≤ limit) (bounded : rest.length ≤ limit)
  (next : (value : α) → (rest : List Token) → rest.length ≤ inner → Reading β limit)

@[simp] theorem outcome_accept : (accept value rest bounded).outcome = .ok value := rfl

@[simp] theorem rest_accept : (accept value rest bounded).rest = rest := rfl

@[simp] theorem outcome_reject :
    (reject error rest bounded : Reading α limit).outcome = .error error := rfl

@[simp] theorem rest_reject : (reject error rest bounded : Reading α limit).rest = rest := rfl

@[simp] theorem outcome_map : (reading.map change within).outcome = reading.outcome.map change :=
  rfl

@[simp] theorem rest_map : (reading.map change within).rest = reading.rest := rfl

@[simp] theorem outcome_widen : (reading.widen within).outcome = reading.outcome := rfl

@[simp] theorem rest_widen : (reading.widen within).rest = reading.rest := rfl

/-- A success hands its value and what it left to the next reading. -/
theorem andThen_of_ok (success : reading.outcome = .ok value) :
    reading.andThen next within = next value reading.rest reading.bounded := by
  obtain ⟨_, _, _⟩ := reading
  cases success
  rfl

/-- A failure is the outcome of the whole, and what it left stays. -/
theorem andThen_of_error (failure : reading.outcome = .error error) :
    reading.andThen next within =
      reject error reading.rest (Nat.le_trans reading.bounded within) := by
  obtain ⟨_, _, _⟩ := reading
  cases failure
  rfl

end Lemmas

end Reading

/-- The empty span just after the last of the tokens, where an unexpected end is found. -/
def endingOf (tokens : List Token) : Span :=
  match tokens.getLast? with
  | some token => token.span.after
  | none => {}

end TreeWalk.Grammar
