import TreeWalk.Proofs.Evaluation.Frame

/-!
# Shadowed variables

A variable that a block declares first stands between all that the block does behind it and the
variables of the same name outside. Assignments from any depth end at it, and only the end of
the block takes it away. `Scopes.Shielded` is the invariant that says so.
-/

namespace TreeWalk

namespace Scopes

/-- The scope at the depth, counted from the innermost one, binds the name, and the scopes below
it bind the name as the given ones do. -/
inductive Shielded (name : String) (below : Scopes) : Nat → Scopes → Prop where
  | here {scope : Scope} {outer : Scopes} (held : name ∈ scope)
      (kept : Alike (· = name) below outer) : Shielded name below 0 (scope :: outer)
  | under {depth : Nat} {scope : Scope} {outer : Scopes}
      (shielded : Shielded name below depth outer) :
      Shielded name below (depth + 1) (scope :: outer)

namespace Shielded

variable {name other : String} {value : Value} {below scopes after : Scopes} {depth : Nat}

/-- A declaration goes to the innermost scope, which is not below the shield. -/
theorem define (shielded : Shielded name below depth scopes) (other : String) (value : Value) :
    Shielded name below depth (scopes.define other value) := by
  cases shielded with
  | here held kept => exact .here (Std.ExtTreeMap.mem_insert.2 (.inr held)) kept
  | under shielded => exact .under shielded

/-- An assignment goes below the shield only if it is to another name. -/
theorem assign (shielded : Shielded name below depth scopes)
    (found : scopes.assign? other value = some after) : Shielded name below depth after := by
  induction shielded generalizing after with
  | here held kept =>
      rw [assign?] at found
      split at found
      next =>
        cases found
        exact .here (Std.ExtTreeMap.mem_insert.2 (.inr held)) kept
      next absent =>
        obtain ⟨others, assigned, rfl⟩ := Option.map_eq_some_iff.1 found
        have apart : other ≠ name := by
          rintro rfl
          exact absent held
        exact .here held (kept.trans (alike_assign assigned apart))
  | under shielded inductionHypothesis =>
      rw [assign?] at found
      split at found
      next =>
        cases found
        exact .under shielded
      next =>
        obtain ⟨others, assigned, rfl⟩ := Option.map_eq_some_iff.1 found
        exact .under (inductionHypothesis assigned)

/-- Closing a scope above the shield leaves it in place. -/
theorem pop (shielded : Shielded name below (depth + 1) scopes) :
    Shielded name below depth scopes.pop := by
  cases shielded with
  | under shielded =>
      cases shielded with
      | here held kept => exact .here held kept
      | under shielded => exact .under shielded

/-- Closing the scope that is the shield leaves the scopes below it. -/
theorem alike_pop (shielded : Shielded name below 0 scopes) (nonempty : below ≠ []) :
    Alike (· = name) below scopes.pop := by
  cases shielded with
  | here _ kept => exact forall₂_pop kept nonempty

/-- Whatever is declared and assigned, the shield stays. -/
theorem moves {allowed : String → Prop} (shielded : Shielded name below depth scopes)
    (moves : Moves allowed scopes after) : Shielded name below depth after := by
  induction moves generalizing depth with
  | still => exact shielded
  | define value => exact shielded.define _ value
  | assign _ found => exact shielded.assign found
  | enclosed _ inside => exact (inside shielded.under).pop
  | trans _ _ first second => exact second (first shielded)

end Shielded

/-- A declaration over scopes that bind its name as the given ones do sets up the shield. -/
theorem Alike.shielded_define {name : String} {scopes middle : Scopes}
    (alike : Alike (· = name) scopes.push middle) (value : Value) :
    Shielded name scopes 0 (middle.define name value) := by
  cases alike with
  | cons _ outside => exact .here Std.ExtTreeMap.mem_insert_self outside

end Scopes

namespace Node

open Scopes (Alike Shielded)

variable {declared : Identifier} {initializer : Option Expr} {scopes : Scopes}

/-- In a new scope a declaration sets up the shield, unless its initial value fails. Then all
scopes bind the name as before. -/
theorem declaration_shields (scopes : Scopes) (span : Span)
    (unassigned : ∀ initial ∈ initializer, declared.name ∉ initial.assigned) :
    let effect := (variableDeclaration declared initializer span).eval scopes.push
    (∃ value, effect.result = .ok value ∧ Shielded declared.name scopes 0 effect.scopes) ∨
      ∃ error, effect.result = .error error ∧
        Alike (· = declared.name) scopes.push effect.scopes := by
  cases initializer with
  | none =>
      rw [eval]
      exact .inl ⟨none, rfl, (Alike.refl scopes.push).shielded_define .nil⟩
  | some initial =>
      have alike : Alike (· = declared.name) scopes.push (initial.eval scopes.push).scopes := by
        refine (initial.alike_eval scopes.push).mono ?_
        rintro _ rfl
        exact unassigned initial rfl
      rw [eval]
      cases outcome : (initial.eval scopes.push).result with
      | ok value =>
          rw [Action.bind_of_ok outcome]
          exact .inl ⟨none, rfl, alike.shielded_define value⟩
      | error error =>
          rw [Action.bind_of_error outcome]
          exact .inr ⟨error, rfl, alike⟩

/-- A block that begins with a declaration leaves the name bound as before in each of the scopes
outside. -/
theorem alike_evalBlock (nonempty : scopes ≠ []) (span : Span)
    (unassigned : ∀ initial ∈ initializer, declared.name ∉ initial.assigned) (rest : List Node) :
    Alike (· = declared.name) scopes
      (evalBlock (.variableDeclaration declared initializer span :: rest) scopes).scopes := by
  have confined (last : Option Value) :
      (evalSequence last rest).Confined (fun _ => True) True :=
    confined_evalSequence last rest fun node _ => node.confined_all
  rw [evalBlock, evalSequence]
  change Alike _ _ (Scopes.pop ((_ >>= _ : Action (Option Value)) scopes.push).scopes)
  obtain ⟨value, done, shielded⟩ | ⟨error, failed, alike⟩ :=
    declaration_shields scopes span unassigned
  · rw [Action.bind_of_ok done]
    exact (shielded.moves ((confined value).moves _)).alike_pop nonempty
  · rw [Action.bind_of_error failed]
    exact alike.pop nonempty

end Node

/-- A block that declares a variable first cannot touch another of its name. If the initial value
does not assign the name, each of the scopes outside binds it as before, whatever else the block
does, and wherever in it an error may end it. -/
theorem shadowing_block_spares_outer {declared : Identifier} {initializer : Option Expr}
    {scopes : Scopes} (nonempty : scopes ≠ [])
    (unassigned : ∀ initial ∈ initializer, declared.name ∉ initial.assigned) (span : Span)
    (rest : List Node) :
    List.Forall₂ (fun before after : Scope => after[declared.name]? = before[declared.name]?)
      scopes
      (Node.evalBlock (.variableDeclaration declared initializer span :: rest) scopes).scopes :=
  (Node.alike_evalBlock nonempty span unassigned rest).imp fun _ _ same => same _ rfl

/-- The block takes its initial value from a variable of the same name, assigns its own, in a block
within too, declares it once more and fails. Both variables outside keep their values. -/
theorem shadowing_block_spares_outer_twice :
    let declared : Identifier := ⟨"a", ⟨1, 4, 1⟩⟩
    let initial : Expr := .terminal ⟨.identifier "a", ⟨1, 8, 1⟩⟩
    let rest := (Grammar.parse .statement
      "a = a + a; \x7b a = b; var a = nil; a = b; \x7d var a = b; a = -a;").produced
    let scopes : Scopes := [.ofList [("a", Value.string "x")],
      .ofList [("a", Value.nil), ("b", Value.string "y")]]
    (scopes ≠ [] ∧ ∀ value ∈ some initial, declared.name ∉ value.assigned) ∧
      List.Forall₂ (fun before after : Scope => after["a"]? = before["a"]?) scopes
        (Node.evalBlock (.variableDeclaration declared initial ⟨1, 0, 3⟩ :: rest) scopes).scopes ∧
      (Node.evalBlock (.variableDeclaration declared initial ⟨1, 0, 3⟩ :: rest) scopes).result =
        .error (.typeMismatch (.unary .negate) .number ⟨1, 57, 1⟩) := by
  intro declared initial rest scopes
  have nonempty : scopes ≠ [] := List.cons_ne_nil _ _
  have unassigned : ∀ value ∈ some initial, declared.name ∉ value.assigned := by
    intro value present
    cases present
    decide
  refine ⟨⟨nonempty, unassigned⟩, ?_, ?_⟩
  · exact shadowing_block_spares_outer nonempty unassigned ⟨1, 0, 3⟩ rest
  · decide +kernel

end TreeWalk
