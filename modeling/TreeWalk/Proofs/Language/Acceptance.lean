import TreeWalk.Proofs.Grammar.Program
import TreeWalk.Proofs.Language.Trees
import TreeWalk.Proofs.Language.Reconstruction

/-!
# The programs that are read without errors

Reading succeeds on exactly what the barred grammar derives: the documented programs in
which no statement behind a condition begins with a minus sign. There the condition goes
on with the minus sign, and takes the statement for its right operand.
-/

namespace TreeWalk

open Grammar

/-- Barring derives no new programs. -/
theorem Dialect.documented_of_barred {body : Ebnf} {tokens : List Token}
    (derived : Derives barred.production body tokens) :
    body.denote (fun symbol => Derives documented.production (.symbol symbol)) tokens := by
  refine Ebnf.denote_of_derives ?_ derived
  intro symbol tokens inside
  refine Ebnf.derives_symbol.2 ?_
  cases symbol with
  | conditional =>
      obtain ⟨_, _, rfl, ⟨_, _, rfl, test, branch⟩, alternative⟩ := inside
      exact ⟨_, _, rfl, ⟨_, _, rfl, test, branch.1⟩, alternative⟩
  | whileLoop =>
      obtain ⟨_, _, rfl, test, branch⟩ := inside
      exact ⟨_, _, rfl, test, branch.1⟩
  | tier tier => cases tier <;> exact inside
  | _ => exact inside

/-- Programs of the barred grammar are documented programs. -/
theorem Dialect.documented_program {tokens : List Token}
    (derived : Derives barred.production .program tokens) :
    Derives documented.production .program tokens :=
  Ebnf.derives_of_denote (documented_of_barred derived)

/-- Reading reports no error exactly on what the barred grammar derives. -/
theorem program_clean_iff {tokens : List Token} :
    (program .statement tokens).errors = [] ↔
      Derives Dialect.barred.production .program tokens := by
  constructor
  · intro clean
    have stretches := stretches_nodes .statement (endingOf tokens) tokens
    rw [program] at clean
    rw [clean] at stretches
    exact Ebnf.derives_of_denote (stretches.allWritten.yields stretches.allWellShaped)
  · intro derived
    obtain ⟨nodes, shaped, written⟩ :=
      Node.exists_allWritten_of_trees (Ebnf.trees_of_derives derived)
    rw [program, nodes_of_allWritten shaped written]

/-- The documented programs that are read without errors are those in which no statement
behind the condition of an `if` or a `while` begins with a minus sign. -/
theorem documented_programs_read_clean (tokens : List Token) :
    (Derives Dialect.barred.production .program tokens →
      Derives Dialect.documented.production .program tokens) ∧
    ((program .statement tokens).errors = [] ↔
      Derives Dialect.barred.production .program tokens) :=
  ⟨Dialect.documented_program, program_clean_iff⟩

section Refused

variable {ending : Span} {tokens rest : List Token} {node : Node}

/-- Nothing but a first token of some statement begins one. -/
theorem not_succeeds_statement {token : Token} (closed : token.kind.opensNode = false) :
    ¬ (statement ending (token :: tokens)).Succeeds node rest := by
  intro success
  obtain ⟨_, shaped, _, consumed, written, whole⟩ := succeeds_statement.1 success
  obtain ⟨first, after, rfl, opens, _⟩ := written.first shaped
  cases whole
  rw [closed] at opens
  cases opens

/-- A condition goes on with the minus sign behind it, and what is left then is no
statement. -/
theorem not_succeeds_conditional {condition value : Expr} {span minus semicolon : Span}
    {asked subtracted : List Token} (shapedCondition : condition.WellShaped)
    (shapedValue : value.WellShaped) (test : condition.Written asked)
    (written : value.Written subtracted)
    (taken : (InfixOperator.binary .sub).Takes condition value) :
    ¬ (conditional ending span (asked ++ ⟨.punctuator .minus, minus⟩ :: subtracted ++
      ⟨.punctuator .semicolon, semicolon⟩ :: tokens)).Succeeds node rest := by
  intro success
  rw [conditional] at success
  obtain ⟨whole, middle, _, read, success⟩ := Reading.succeeds_andThen.1 success
  have longer : (expression ending (asked ++ ⟨.punctuator .minus, minus⟩ :: subtracted ++
      ⟨.punctuator .semicolon, semicolon⟩ :: tokens)).Succeeds
      (.binary condition .sub value minus) (⟨.punctuator .semicolon, semicolon⟩ :: tokens) :=
    (succeeds_expression closes_semicolon).2
      ⟨⟨shapedCondition, shapedValue, taken⟩, _, .binary test written, rfl⟩
  have left : middle = ⟨.punctuator .semicolon, semicolon⟩ :: tokens :=
    read.2.symm.trans longer.2
  obtain ⟨_, _, _, branch, _⟩ := Reading.succeeds_andThen.1 success
  rw [left] at branch
  exact not_succeeds_statement rfl branch

/-- A program whose first node is not read has errors. -/
theorem errors_ne_nil {token : Token}
    (refused : ∀ node rest, ¬ (declaration (endingOf (token :: tokens))
      (token :: tokens)).Succeeds node rest) :
    (program .statement (token :: tokens)).errors ≠ [] := by
  rw [program]
  cases outcome : (topLevel .statement (endingOf (token :: tokens)) (token :: tokens)).outcome with
  | ok node => exact absurd ⟨outcome, rfl⟩ (refused node _)
  | error error =>
      rw [nodes_of_failure outcome rfl]
      exact List.cons_ne_nil _ _

/-- A negation behind a condition is derived by the documented grammar and refused. -/
theorem negated_branch_refused (span minus semicolon : Span) {condition operand : Expr}
    {asked negated : List Token} (shapedCondition : condition.WellShaped)
    (shapedOperand : operand.WellShaped) (test : condition.Written asked)
    (written : operand.Written negated)
    (fitsCondition : condition.tier.looseness ≤ (Tier.infixed .term).looseness)
    (fitsOperand : operand.tier.looseness ≤ Tier.unary.looseness) :
    Derives Dialect.documented.production .program (⟨.keyword .ifWord, span⟩ :: (asked ++
        ⟨.punctuator .minus, minus⟩ :: negated ++ [⟨.punctuator .semicolon, semicolon⟩])) ∧
      (program .statement (⟨.keyword .ifWord, span⟩ :: (asked ++
        ⟨.punctuator .minus, minus⟩ :: negated ++
          [⟨.punctuator .semicolon, semicolon⟩]))).errors ≠ [] := by
  constructor
  · have tested : Symbol.expression.Yields asked := test.yields_expression shapedCondition
    have negation : Expr.Written (.unary .negate operand minus)
        (⟨.punctuator .minus, minus⟩ :: negated) := .unary written
    have branch : Symbol.expressionStatement.Yields (⟨.punctuator .minus, minus⟩ :: negated ++
        [⟨.punctuator .semicolon, semicolon⟩]) :=
      negation.yields_expressionStatement ⟨shapedOperand, fitsOperand⟩
    have stated := branch.statement (by simp)
    have conditional : Derives Dialect.documented.production (.symbol .conditional)
        (⟨.keyword .ifWord, span⟩ :: asked ++ (⟨.punctuator .minus, minus⟩ :: negated ++
          [⟨.punctuator .semicolon, semicolon⟩]) ++ []) :=
      Ebnf.derives_symbol.2 ⟨_, [], rfl, ⟨⟨.keyword .ifWord, span⟩ :: asked, _, rfl,
        ⟨[⟨.keyword .ifWord, span⟩], asked, rfl, ⟨span, rfl⟩,
          Dialect.documented_of_barred tested⟩, Dialect.documented_of_barred stated⟩, Or.inl rfl⟩
    have statement : Derives Dialect.documented.production (.symbol .statement) _ :=
      Ebnf.derives_symbol.2 (Or.inr (Or.inl conditional))
    have declaration : Derives Dialect.documented.production (.symbol .declaration) _ :=
      Ebnf.derives_symbol.2 (Or.inr (Or.inr (Or.inr statement)))
    exact Ebnf.derives_of_denote ⟨[_], by simp, List.forall_mem_singleton.2 declaration⟩
  -- The condition goes on over the minus sign, and what follows it is no statement.
  · have value : (InfixOperator.binary .sub).Takes condition operand :=
      ⟨fitsCondition, Nat.lt_of_le_of_lt fitsOperand (by decide)⟩
    refine errors_ne_nil fun node rest success => ?_
    rw [declaration, statement] at success
    exact not_succeeds_conditional shapedCondition shapedOperand test written value
      (Reading.succeeds_widen.1 success)

/-- The program `if (a) -b;` is documented and refused. -/
theorem not_every_documented_program_read_clean :
    ¬ ∀ tokens, Derives Dialect.documented.production .program tokens →
      (program .statement tokens).errors = [] := by
  intro clean
  have shapedCondition : (Expr.group (.terminal ⟨.identifier "a", ⟨1, 4, 1⟩⟩)
    ⟨1, 3, 1⟩).WellShaped := rfl
  have shapedOperand : (Expr.terminal ⟨.identifier "b", ⟨1, 8, 1⟩⟩).WellShaped := rfl
  obtain ⟨derived, refused⟩ := negated_branch_refused ⟨1, 0, 2⟩ ⟨1, 7, 1⟩ ⟨1, 9, 1⟩
    shapedCondition shapedOperand (.group ⟨1, 5, 1⟩ .terminal) .terminal (by decide) (by decide)
  exact refused (clean _ derived)

end Refused

end TreeWalk
