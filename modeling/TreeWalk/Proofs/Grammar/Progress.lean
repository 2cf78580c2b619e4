import TreeWalk.Grammar.Rule
import TreeWalk.Proofs.Grammar.Program

/-!
# Reading makes progress

Every rule takes a token where there is one, whether it succeeds or fails. A loop that reads
a program with a rule, and skips a token where the rule failed and took none, therefore never
skips a token. It ends behind the last one, after a turn for every node and every error.
-/

namespace TreeWalk

namespace Grammar

/-- A reading that accounts for its tokens takes the cursor past one or more of them, where
there is one. -/
theorem Reading.Accounts.exists_moveTo {α : Type} {cursor : Cursor}
    {reading : Reading α (cursor.ahead.length - 1)}
    (accounts : reading.Accounts cursor.ending cursor.ahead) (ahead : cursor.ahead ≠ []) :
    ∃ taken, taken ≠ [] ∧ cursor.ahead = taken ++ reading.rest ∧
      cursor.moveTo reading.rest =
        ⟨reading.rest, cursor.position + taken.length, cursor.ending⟩ := by
  have shorter := Nat.sub_lt (List.length_pos_iff.2 ahead) Nat.one_pos
  obtain ⟨taken, progress, whole⟩ := accounts.exists_taken shorter
  have counted : cursor.ahead.length - reading.rest.length = taken.length := by
    have total := congrArg List.length whole
    rw [List.length_append] at total
    omega
  refine ⟨taken, progress, whole, ?_⟩
  rw [Cursor.moveTo, counted]

/-- Every rule accounts for its tokens. -/
theorem Rule.accounts_read (rule : Rule) (ending : Span) (tokens : List Token) :
    (rule.read ending tokens).Accounts ending tokens := by
  cases rule <;> rw [read]
  case expression => exact (accounts_expression ending tokens).map
  case expressionOf tier => exact (accounts_expressionOf ending tier tokens).map
  case declaration => exact (accounts_declaration ending tokens).map
  case statement => exact (accounts_statement ending tokens).map
  case blockBody => exact (accounts_blockBody ending tokens).map

/-- A rule that is run where there is a token takes one or more, and no more than there are. -/
theorem Rule.progress_run (rule : Rule) (cursor : Cursor) (ahead : cursor.ahead ≠ []) :
    ∃ taken, taken ≠ [] ∧ cursor.ahead = taken ++ (rule.run cursor).2.ahead ∧
      (rule.run cursor).2.position = cursor.position + taken.length := by
  obtain ⟨taken, progress, whole, moved⟩ :=
    (rule.accounts_read cursor.ending cursor.ahead).exists_moveTo ahead
  exact ⟨taken, progress, whole, congrArg Cursor.position moved⟩

/-- A loop on its way through a program: where it stands, the nodes that it has read and the
errors that it has met. -/
structure Pass where
  cursor : Cursor
  produced : List Node
  errors : List SyntaxError

namespace Pass

/-- The loop before its first turn. -/
def start (tokens : List Token) : Pass where
  cursor := .start tokens
  produced := []
  errors := []

variable (mode : Mode)

/-- What the rule of the mode reads next. -/
def reading (pass : Pass) : Reading Node (pass.cursor.ahead.length - 1) :=
  topLevel mode pass.cursor.ending pass.cursor.ahead

/-- Where the rule of the mode leaves the cursor. -/
def moved (pass : Pass) : Cursor :=
  pass.cursor.moveTo (pass.reading mode).rest

/-- One turn of the loop. Behind a failure that took no token it skips one. -/
def turn (pass : Pass) : Pass :=
  match (pass.reading mode).outcome with
  | .ok node => { pass with cursor := pass.moved mode, produced := pass.produced ++ [node] }
  | .error error =>
      { pass with
        cursor :=
          if (pass.moved mode).position = pass.cursor.position then (pass.moved mode).advance
          else pass.moved mode
        errors := pass.errors ++ [error] }

/-- The loop goes on while there is a token ahead. It comes to the end after so many turns,
and in none of them did the rule leave the cursor where it was. -/
inductive Finishes : Nat → Pass → Pass → Prop where
  | finish {pass : Pass} (consumed : pass.cursor.atEnd) : Finishes 0 pass pass
  | turn {turns : Nat} {pass final : Pass} (ahead : ¬ pass.cursor.atEnd)
      (moves : (pass.moved mode).position ≠ pass.cursor.position)
      (others : Finishes turns (pass.turn mode) final) : Finishes (turns + 1) pass final

variable {mode} {pass final : Pass} {turns : Nat}

/-- A turn that reads a node keeps it and moves on. -/
theorem turn_of_ok {node : Node} (success : (pass.reading mode).outcome = .ok node) :
    pass.turn mode =
      { pass with cursor := pass.moved mode, produced := pass.produced ++ [node] } := by
  rw [turn, success]

/-- A turn that fails farther on keeps the error and moves on. -/
theorem turn_of_error {error : SyntaxError} (failure : (pass.reading mode).outcome = .error error)
    (moves : (pass.moved mode).position ≠ pass.cursor.position) :
    pass.turn mode = { pass with cursor := pass.moved mode, errors := pass.errors ++ [error] } := by
  rw [turn, failure]
  simp only [if_neg moves]

/-- A rule that moves the cursor leaves it to the next turn. -/
theorem cursor_turn (moves : (pass.moved mode).position ≠ pass.cursor.position) :
    (pass.turn mode).cursor = pass.moved mode := by
  cases outcome : (pass.reading mode).outcome with
  | ok node => rw [turn_of_ok outcome]
  | error error => rw [turn_of_error outcome moves]

/-- Every turn takes a token at least. -/
theorem Finishes.position_add_le (finishes : Finishes mode turns pass final) :
    pass.cursor.position + turns ≤ final.cursor.position := by
  induction finishes with
  | finish => exact Nat.le_refl _
  | @turn turns pass final _ moves _ inductionHypothesis =>
      rw [cursor_turn moves] at inductionHypothesis
      have forward : pass.cursor.position ≤ (pass.moved mode).position := Nat.le_add_right _ _
      omega

/-- A loop without turns had no token. -/
theorem Finishes.atEnd_of_zero (finishes : Finishes mode 0 pass final) : pass.cursor.atEnd := by
  cases finishes
  assumption

end Pass

/-- The loop reads what is read as a program, with a turn for every node and every error. -/
theorem finishes_nodes (mode : Mode) (ending : Span) (tokens : List Token) (position : Nat)
    (produced : List Node) (errors : List SyntaxError) :
    Pass.Finishes mode
      ((nodes mode ending tokens).produced.length + (nodes mode ending tokens).errors.length)
      ⟨⟨tokens, position, ending⟩, produced, errors⟩
      ⟨⟨[], position + tokens.length, ending⟩, produced ++ (nodes mode ending tokens).produced,
        errors ++ (nodes mode ending tokens).errors⟩ := by
  cases tokens with
  | nil =>
      rw [nodes]
      simpa using Pass.Finishes.finish rfl
  | cons token tokens =>
      let pass : Pass := ⟨⟨token :: tokens, position, ending⟩, produced, errors⟩
      have ahead : ¬ pass.cursor.atEnd := by simp [pass, Cursor.atEnd]
      obtain ⟨taken, progress, whole, moved⟩ :=
        (accounts_topLevel ending mode pass.cursor.ahead).exists_moveTo (List.cons_ne_nil _ _)
      change pass.moved mode = _ at moved
      obtain ⟨rest, left⟩ : ∃ rest, (topLevel mode ending pass.cursor.ahead).rest = rest :=
        ⟨_, rfl⟩
      rw [left] at whole moved
      have some : 0 < taken.length := List.length_pos_iff.2 progress
      have total : (token :: tokens).length = taken.length + rest.length := by
        rw [← List.length_append, ← whole]
      have shorter : rest.length < (token :: tokens).length := by omega
      -- The rule takes a token whether or not it fails, so the guard of the loop is never needed.
      have moves : (pass.moved mode).position ≠ pass.cursor.position := by
        rw [moved]
        apply Nat.ne_of_gt
        exact Nat.lt_add_of_pos_right some
      rw [total, ← Nat.add_assoc]
      cases outcome : (pass.reading mode).outcome with
      | ok node =>
          have others := finishes_nodes mode ending rest (position + taken.length)
            (produced ++ [node]) errors
          have turned : pass.turn mode = ⟨⟨rest, position + taken.length, ending⟩,
              produced ++ [node], errors⟩ := by
            rw [Pass.turn_of_ok outcome, moved]
          rw [← turned] at others
          rw [nodes_of_success ⟨outcome, left⟩, List.length_cons, Nat.add_right_comm]
          simpa using Pass.Finishes.turn ahead moves others
      | error error =>
          have others := finishes_nodes mode ending rest (position + taken.length)
            produced (errors ++ [error])
          have turned : pass.turn mode = ⟨⟨rest, position + taken.length, ending⟩,
              produced, errors ++ [error]⟩ := by
            rw [Pass.turn_of_error outcome moves, moved]
          rw [← turned] at others
          rw [nodes_of_failure outcome left, List.length_cons, ← Nat.add_assoc]
          simpa using Pass.Finishes.turn ahead moves others
termination_by tokens.length
decreasing_by all_goals exact shorter

/-- Reading makes progress. A rule that is run where there is a token takes one or more, never
more than there are, whether it succeeds or fails. The loop over a program ends with all
tokens taken and never skips one behind a failure; its turns are the nodes and the errors, of
which there are at most as many as tokens, and none only where there is no token. -/
theorem reading_makes_progress :
    (∀ (rule : Rule) (cursor : Cursor), cursor.ahead ≠ [] →
      ∃ taken, taken ≠ [] ∧ cursor.ahead = taken ++ (rule.run cursor).2.ahead ∧
        (rule.run cursor).2.position = cursor.position + taken.length) ∧
    (∀ (mode : Mode) (tokens : List Token),
      let read := program mode tokens
      let turns := read.produced.length + read.errors.length
      Pass.Finishes mode turns (.start tokens)
          ⟨⟨[], tokens.length, endingOf tokens⟩, read.produced, read.errors⟩ ∧
        turns ≤ tokens.length ∧ (turns = 0 ↔ tokens = [])) := by
  refine ⟨Rule.progress_run, ?_⟩
  intro mode tokens read turns
  have finishes : Pass.Finishes mode turns (.start tokens)
      ⟨⟨[], tokens.length, endingOf tokens⟩, read.produced, read.errors⟩ := by
    have fromStart := finishes_nodes mode (endingOf tokens) tokens 0 [] []
    rw [Nat.zero_add] at fromStart
    exact fromStart
  refine ⟨finishes, ?_, ?_, ?_⟩
  · have counted := finishes.position_add_le
    rw [Nat.add_comm] at counted
    exact counted
  · intro none
    rw [none] at finishes
    exact List.isEmpty_iff.1 finishes.atEnd_of_zero
  · rintro rfl
    simp [turns, read, program, nodes]

end Grammar

end TreeWalk
