import TreeWalk.Proofs.Grammar.Program
import TreeWalk.Proofs.Token.Tiling

/-!
# Syntax errors in order

Reading goes on where a failed rule stopped, so the errors of a program come in the order of
its source. A token that stands in the place of another is not passed over. The next rule
begins with it, and may find it unexpected: no more than these two errors are about one place.
-/

namespace TreeWalk

namespace SyntaxError

/-- The first error is reported in front of the second: it is not about the end and stands
farther ahead in the source, or is about the same token, which is unexpected on its own. -/
inductive Before : SyntaxError → SyntaxError → Prop where
  | farther {first second : SyntaxError} (notEnd : ∀ span, first ≠ .unexpectedEnd span)
      (less : first.span.offset < second.span.offset) : Before first second
  | unread {expected : Punctuator} {found : Token} :
      Before (.missingToken expected found) (.unexpectedToken found)

namespace Before

variable {first second : SyntaxError}

/-- An error in front of another does not stand behind it in the source. -/
theorem offset_le (before : first.Before second) : first.span.offset ≤ second.span.offset := by
  cases before with
  | farther _ less => exact Nat.le_of_lt less
  | unread => exact Nat.le_refl _

/-- Two errors at one place are about one token: another was missed there, and then it is
unexpected. -/
theorem eq_of_offset_eq (before : first.Before second)
    (same : first.span.offset = second.span.offset) :
    ∃ expected found, first = .missingToken expected found ∧ second = .unexpectedToken found := by
  cases before with
  | farther _ less => exact absurd same (Nat.ne_of_lt less)
  | unread => exact ⟨_, _, rfl, rfl⟩

/-- Behind an error at the end there is no further one. -/
theorem not_end {span : Span} : ¬ (unexpectedEnd span).Before second := by
  intro before
  cases before with
  | farther notEnd _ => exact notEnd span rfl

end Before

/-- Of errors in order, one about the end is the last. -/
theorem end_last_of_pairwise {front behind : List SyntaxError} {span : Span}
    (ordered : (front ++ .unexpectedEnd span :: behind).Pairwise Before) : behind = [] := by
  obtain ⟨_, later, _⟩ := List.pairwise_append.1 ordered
  cases behind with
  | nil => rfl
  | cons second behind =>
      exact absurd (List.rel_of_pairwise_cons later List.mem_cons_self) Before.not_end

/-- Errors in order that are about one place are one error, or two about one token. -/
theorem missing_unexpected_of_pairwise {errors : List SyntaxError} {offset : Nat}
    (ordered : errors.Pairwise Before) (there : ∀ error ∈ errors, error.span.offset = offset) :
    errors.length ≤ 1 ∨
      ∃ expected found, errors = [.missingToken expected found, .unexpectedToken found] := by
  match errors, ordered with
  | [], _ => exact .inl (Nat.zero_le 1)
  | [_], _ => exact .inl (Nat.le_refl 1)
  | first :: second :: others, .cons ahead (.cons aheadOthers _) =>
      have same : ∀ error ∈ first :: second :: others, ∀ other ∈ first :: second :: others,
          error.span.offset = other.span.offset := by
        intro error member other otherMember
        rw [there error member, there other otherMember]
      obtain ⟨expected, found, rfl, rfl⟩ :=
        (ahead second (by simp)).eq_of_offset_eq (same _ (by simp) _ (by simp))
      cases others with
      | nil => exact .inr ⟨expected, found, rfl⟩
      | cons third others =>
          -- The token would have to be missing and unexpected at once.
          obtain ⟨_, _, unexpected, _⟩ :=
            (aheadOthers third (by simp)).eq_of_offset_eq (same _ (by simp) _ (by simp))
          cases unexpected

/-- The error is about the first of the tokens, which is unexpected, or lies behind it. -/
def Follows (tokens : List Token) (error : SyntaxError) : Prop :=
  ∃ first ∈ tokens.head?, first.span.offset < error.span.offset ∨ error = .unexpectedToken first

end SyntaxError

namespace Grammar

/-- The tokens stand in the order of a source, and in front of its end. -/
structure Ordered (ending : Span) (tokens : List Token) : Prop where
  increasing : tokens.Pairwise fun first second => first.span.offset < second.span.offset
  inFront : ∀ token ∈ tokens, token.span.offset < ending.offset

variable {mode : Mode} {ending : Span} {tokens front taken rest : List Token} {first token : Token}
  {error other : SyntaxError}

namespace Ordered

/-- Tokens behind others are in order by themselves. -/
theorem behind (ordered : Ordered ending (front ++ rest)) : Ordered ending rest where
  increasing := (List.pairwise_append.1 ordered.increasing).2.1
  inFront token member := ordered.inFront token (List.mem_append_right front member)

/-- A token in front stands ahead of those behind it. -/
theorem lt_of_append (ordered : Ordered ending (front ++ rest)) (early : first ∈ front)
    (late : token ∈ rest) : first.span.offset < token.span.offset :=
  (List.pairwise_append.1 ordered.increasing).2.2 first early token late

/-- Every token but the first stands behind it. -/
theorem eq_or_lt (ordered : Ordered ending (first :: rest)) (member : token ∈ first :: rest) :
    token = first ∨ first.span.offset < token.span.offset := by
  cases member with
  | head => exact .inl rfl
  | tail _ later => exact .inr (List.rel_of_pairwise_cons ordered.increasing later)

/-- An error that lies behind later tokens lies behind all of them. -/
theorem follows_append (ordered : Ordered ending (front ++ rest)) (follows : error.Follows rest) :
    error.Follows (front ++ rest) := by
  cases front with
  | nil => exact follows
  | cons start front =>
      obtain ⟨first, head, place⟩ := follows
      have less := ordered.lt_of_append (List.mem_cons_self (a := start))
        (List.mem_of_mem_head? head)
      refine ⟨start, rfl, .inl ?_⟩
      rcases place with further | rfl
      · exact Nat.lt_trans less further
      · exact less

end Ordered

/-- The tokens of a scan are in order. -/
theorem ordered_scan (source : String) :
    Ordered (endingOf (scan source).produced) (scan source).produced := by
  have apart := (tiled_scan source).pairwise_tokens
  have wide : ∀ token ∈ (scan source).produced, token.span.offset < token.span.finish := by
    intro token member
    exact Nat.lt_add_of_pos_right (covers_of_mem_scan member).1
  constructor
  · apply apart.imp_of_mem
    intro first second member _ finished
    exact Nat.lt_of_lt_of_le (wide first member) finished
  · intro token member
    obtain ⟨last, final⟩ := Option.isSome_iff_exists.1
      (List.getLast?_isSome.2 (List.ne_nil_of_mem member))
    have ending : (endingOf (scan source).produced).offset = last.span.finish := by
      rw [endingOf, final]
      rfl
    rw [ending]
    obtain ⟨others, whole⟩ := List.getLast?_eq_some_iff.1 final
    rw [whole] at member apart wide
    rcases List.mem_append.1 member with early | here
    · have finished := (List.pairwise_append.1 apart).2.2 token early last (by simp)
      have := wide token member
      have := wide last (by simp)
      omega
    · obtain rfl := List.mem_singleton.1 here
      exact wide token member

end Grammar

namespace SyntaxError.Concerns

open Grammar

variable {ending : Span} {taken rest : List Token} {error other : SyntaxError}

/-- A token that is unexpected has been taken. -/
theorem mem_taken {found : Token} (concerns : (unexpectedToken found).Concerns ending taken rest) :
    found ∈ taken := by
  cases concerns with
  | unexpected last => exact List.mem_of_getLast? last
  | refused placed => simp [placed]

/-- A rule that took tokens has its error at the first of them, if that is unexpected, or
behind it. -/
theorem follows (concerns : error.Concerns ending taken rest)
    (ordered : Ordered ending (taken ++ rest)) (progress : taken ≠ []) :
    error.Follows (taken ++ rest) := by
  obtain ⟨first, others, rfl⟩ := List.exists_cons_of_ne_nil progress
  refine ⟨first, rfl, ?_⟩
  cases error with
  | missingToken expected found =>
      cases concerns
      exact .inl (ordered.lt_of_append (by simp) (by simp))
  | unexpectedEnd span =>
      cases concerns
      exact .inl (ordered.inFront first (by simp))
  | unexpectedToken found =>
      have member := List.mem_append_left rest concerns.mem_taken
      rcases ordered.eq_or_lt member with rfl | further
      · exact .inr rfl
      · exact .inl further

/-- An error about the tokens that a rule left comes behind the error of the rule. -/
theorem before (concerns : error.Concerns ending taken rest)
    (ordered : Ordered ending (taken ++ rest)) (later : other.Follows rest) :
    error.Before other := by
  obtain ⟨first, head, place⟩ := later
  obtain ⟨others, rfl⟩ := List.head?_eq_some_iff.1 head
  cases error with
  | missingToken expected found =>
      cases concerns
      rcases place with further | rfl
      · exact .farther (by simp) further
      · exact .unread
  | unexpectedEnd span => cases concerns
  | unexpectedToken found =>
      have less := ordered.lt_of_append concerns.mem_taken (List.mem_cons_self (a := first))
      apply Before.farther (by simp)
      rcases place with further | rfl
      · exact Nat.lt_trans less further
      · exact less

end SyntaxError.Concerns

namespace Grammar

variable {mode : Mode} {ending : Span} {tokens : List Token}

/-- The errors that are met on the way through tokens are in order, and behind the first. -/
theorem Stretches.errors_ordered {nodes : List Node} {errors : List SyntaxError}
    (stretches : Stretches mode ending tokens nodes errors) (ordered : Ordered ending tokens) :
    errors.Pairwise SyntaxError.Before ∧ ∀ error ∈ errors, error.Follows tokens := by
  induction stretches with
  | nil => exact ⟨.nil, by simp⟩
  | node _ _ _ inductionHypothesis =>
      obtain ⟨later, follow⟩ := inductionHypothesis ordered.behind
      exact ⟨later, fun error met => ordered.follows_append (follow error met)⟩
  | error failure left progress _ inductionHypothesis =>
      obtain ⟨later, follow⟩ := inductionHypothesis ordered.behind
      have concerns := concerns_of_failure failure left
      constructor
      · apply List.Pairwise.cons _ later
        intro other met
        exact concerns.before ordered (follow other met)
      · intro error met
        cases met with
        | head => exact concerns.follows ordered progress
        | tail _ met => exact ordered.follows_append (follow error met)

/-- Syntax errors come in the order of the source. Where two are about one place, a token
stands in the place of a punctuator and is then unexpected itself; there are never three. An
unexpected end is the last error. -/
theorem syntax_errors_in_order (mode : Mode) {source : String}
    (scans : (scan source).errors = []) :
    ∃ errors : List SyntaxError, (parse mode source).errors = errors.map .syntactic ∧
      (errors.Pairwise fun first second => first.span.offset ≤ second.span.offset) ∧
      (∀ offset,
        let there := errors.filter fun error => error.span.offset = offset
        there.length ≤ 1 ∨
          ∃ expected found, there = [.missingToken expected found, .unexpectedToken found]) ∧
      ∀ front span behind, errors = front ++ .unexpectedEnd span :: behind → behind = [] := by
  have stretches := stretches_nodes mode (endingOf (scan source).produced) (scan source).produced
  have ordered := (stretches.errors_ordered (ordered_scan source)).1
  refine ⟨(program mode (scan source).produced).errors, ?_, ?_, ?_, ?_⟩
  · simp [parse, scans]
  · exact ordered.imp SyntaxError.Before.offset_le
  · intro offset
    apply SyntaxError.missing_unexpected_of_pairwise (ordered.filter _)
    intro error met
    simpa using (List.mem_filter.1 met).2
  · intro front span behind placed
    apply SyntaxError.end_last_of_pairwise
    rw [← placed]
    exact ordered

/-- A parenthesis in the place of a semicolon is missed for it and then unexpected, and the
expression behind it ends too early. -/
theorem syntax_errors_in_order_print :
    (scan "print 1 ) 2").errors = [] ∧
      ∃ errors : List SyntaxError,
        (parse .statement "print 1 ) 2").errors = errors.map .syntactic ∧ errors.length = 3 ∧
        errors.Pairwise fun first second => first.span.offset ≤ second.span.offset := by
  have scans : (scan "print 1 ) 2").errors = [] := by decide +kernel
  have three : (parse .statement "print 1 ) 2").errors.length = 3 := by decide +kernel
  obtain ⟨errors, parsed, ordered, _⟩ := syntax_errors_in_order .statement scans
  refine ⟨scans, errors, parsed, ?_, ordered⟩
  rw [← three, parsed, List.length_map]

end Grammar

end TreeWalk
