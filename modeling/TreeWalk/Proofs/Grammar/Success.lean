import TreeWalk.Grammar.Descent
import TreeWalk.Proofs.Syntax.Written

/-!
# Successful readings

What it takes for a rule of the grammar to succeed, one equivalence for each rule. A
reading succeeds through the readings that it is made of, so the equivalences lead from
any success down to single tokens and back up. Nothing after this module opens a rule.
-/

namespace TreeWalk.Grammar

namespace Reading

variable {α β : Type} {inner limit : Nat}

/-- The reading made this value of the tokens in front of the rest. -/
def Succeeds (reading : Reading α limit) (value : α) (rest : List Token) : Prop :=
  reading.outcome = .ok value ∧ reading.rest = rest

section Lemmas

variable {value : α} {result : β} {error : SyntaxError} {rest after : List Token}
  {change : α → β} {reading : Reading α inner} {within : inner ≤ limit}
  {bounded : rest.length ≤ limit}
  {next : (value : α) → (rest : List Token) → rest.length ≤ inner → Reading β limit}

/-- A reading leaves no more tokens than its bound. -/
theorem Succeeds.length_le (success : reading.Succeeds value rest) : rest.length ≤ inner := by
  rw [← success.2]
  exact reading.bounded

/-- A value is the success of itself, in front of its rest. -/
@[simp] theorem succeeds_accept {other : α} :
    (accept value rest bounded).Succeeds other after ↔ value = other ∧ rest = after := by
  simp [Succeeds]

/-- An error is no success. -/
@[simp] theorem not_succeeds_reject :
    ¬ (reject error rest bounded : Reading α limit).Succeeds value after := by
  simp [Succeeds]

/-- A reading succeeds as before when its bound is widened. -/
@[simp] theorem succeeds_widen :
    (reading.widen within).Succeeds value after ↔ reading.Succeeds value after := by
  simp [Succeeds]

/-- A reading whose value is changed succeeds with the changed values. -/
@[simp] theorem succeeds_map :
    (reading.map change within).Succeeds result after ↔
      ∃ value, reading.Succeeds value after ∧ change value = result := by
  cases outcome : reading.outcome with
  | ok value =>
      simp only [Succeeds, outcome_map, rest_map, outcome, Except.map, Except.ok.injEq]
      constructor
      · rintro ⟨changed, left⟩
        exact ⟨value, ⟨rfl, left⟩, changed⟩
      · rintro ⟨other, ⟨rfl, left⟩, changed⟩
        exact ⟨changed, left⟩
  | error error => simp [Succeeds, outcome, Except.map]

/-- A success goes on with what it made and left. -/
theorem Succeeds.andThen (first : reading.Succeeds value rest)
    (second : ∀ bounded, (next value rest bounded).Succeeds result after) :
    (reading.andThen next within).Succeeds result after := by
  obtain ⟨outcome, rfl⟩ := first
  rw [andThen_of_ok value reading within next outcome]
  exact second reading.bounded

/-- A reading behind another succeeds if both do, the second from where the first one stops. -/
@[simp] theorem succeeds_andThen :
    (reading.andThen next within).Succeeds result after ↔
      ∃ value rest, ∃ bounded : rest.length ≤ inner,
        reading.Succeeds value rest ∧ (next value rest bounded).Succeeds result after := by
  constructor
  · intro success
    cases outcome : reading.outcome with
    | ok value =>
        rw [andThen_of_ok value reading within next outcome] at success
        exact ⟨value, reading.rest, reading.bounded, ⟨outcome, rfl⟩, success⟩
    | error error =>
        rw [andThen_of_error error reading within next outcome] at success
        cases not_succeeds_reject success
  · rintro ⟨value, rest, bounded, first, second⟩
    exact first.andThen fun _ => second

end Lemmas

end Reading

variable {ending span : Span} {tokens rest : List Token}

/-- One given punctuator is read from exactly its own tokens. -/
theorem succeeds_expect {mark : Punctuator} {token : Token} :
    (expect ending mark tokens).Succeeds token rest ↔
      ∃ span, token = ⟨.punctuator mark, span⟩ ∧ tokens = token :: rest := by
  rcases tokens with _ | ⟨⟨kind, place⟩, tail⟩
  · simp [expect]
  · by_cases found : kind = .punctuator mark
    · simp only [expect, if_pos found, Reading.succeeds_accept, List.cons.injEq]
      constructor
      · rintro ⟨rfl, rfl⟩
        exact ⟨place, by rw [found], rfl, rfl⟩
      · rintro ⟨_, _, same⟩
        exact same
    · simp only [expect, if_neg found, Reading.not_succeeds_reject, List.cons.injEq, false_iff]
      rintro ⟨_, rfl, same, _⟩
      cases same
      exact found rfl

/-- A punctuator whose token is not kept. -/
theorem succeeds_map_expect {α : Type} {limit : Nat} {mark : Punctuator} {value result : α}
    {within : tokens.length ≤ limit} :
    ((expect ending mark tokens).map (fun _ => value) within).Succeeds result rest ↔
      (∃ span, tokens = ⟨.punctuator mark, span⟩ :: rest) ∧ value = result := by
  simp only [Reading.succeeds_map, succeeds_expect]
  constructor
  · rintro ⟨_, ⟨span, rfl, same⟩, value⟩
    exact ⟨⟨span, same⟩, value⟩
  · rintro ⟨⟨span, same⟩, value⟩
    exact ⟨_, ⟨span, rfl, same⟩, value⟩

/-- A name is read from exactly its own token. -/
theorem succeeds_identifier {name : Identifier} :
    (identifier ending tokens).Succeeds name rest ↔ tokens = name.token :: rest := by
  obtain ⟨name, span⟩ := name
  rcases tokens with _ | ⟨⟨kind, place⟩, tail⟩
  · simp [identifier]
  · cases kind <;> simp [identifier, Identifier.token, and_assoc]

end TreeWalk.Grammar
