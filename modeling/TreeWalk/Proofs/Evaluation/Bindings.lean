import TreeWalk.Proofs.Evaluation.Declarations

/-!
# Look-up, assignment and declaration

Three searches through the scopes have to agree: a look-up, an assignment and a declaration.
An assignment lands where a look-up finds its value, and a declaration in the innermost scope,
in front of everything else. So a scope that is opened and closed again takes with it what was
declared in it, and assignments reach through it to the scopes below.
-/

namespace TreeWalk

/-- A change to the variables in force. -/
inductive Change where
  | define (name : String) (value : Value)
  | assign (target : Identifier) (value : Value)

/-- Whether the change is an assignment. -/
def Change.isAssignment : Change → Bool
  | define _ _ => false
  | assign _ _ => true

namespace Scopes

/-- The scopes after a change, also after one that fails. -/
def apply (scopes : Scopes) : Change → Scopes
  | .define name value => (Action.define name value scopes).scopes
  | .assign target value => (Action.assign target value scopes).scopes

/-- The scopes after changes in turn. -/
def applyAll (scopes : Scopes) (changes : List Change) : Scopes :=
  changes.foldl apply scopes

/-- Whenever one of the changes is an assignment, the innermost scope has no variable of its name
by then. -/
def ReachesThrough : Scopes → List Change → Prop
  | _, [] => True
  | scopes, .define name value :: changes =>
      ReachesThrough (scopes.apply (.define name value)) changes
  | scopes, .assign target value :: changes =>
      ¬ scopes.HasLocal target.name ∧ ReachesThrough (scopes.apply (.assign target value)) changes

section Assignment

variable {scopes after : Scopes} {name : String} {target : Identifier} {value : Value}

/-- An assignment that finds no variable changes nothing. -/
theorem apply_assign (scopes : Scopes) (target : Identifier) (value : Value) :
    scopes.apply (.assign target value) = (scopes.assign? target.name value).getD scopes := by
  rw [apply, Action.assign]
  cases scopes.assign? target.name value <;> rfl

/-- A variable is assigned in the innermost scope that has it, and nothing else changes. -/
theorem exists_of_assign? (found : scopes.assign? name value = some after) :
    ∃ inner scope outer, scopes = inner ++ scope :: outer ∧
      (∀ other ∈ inner, name ∉ other) ∧ name ∈ scope ∧
      after = inner ++ scope.insert name value :: outer := by
  induction scopes generalizing after with
  | nil => cases found
  | cons scope outer inductionHypothesis =>
      by_cases held : name ∈ scope
      · rw [assign?, if_pos held, Option.some.injEq] at found
        exact ⟨[], scope, outer, rfl, by simp, held, found.symm⟩
      · rw [assign?, if_neg held, Option.map_eq_some_iff] at found
        obtain ⟨others, assigned, rfl⟩ := found
        obtain ⟨inner, holder, lower, rfl, free, holds, rfl⟩ := inductionHypothesis assigned
        exact ⟨scope :: inner, holder, lower, rfl, List.forall_mem_cons.2 ⟨held, free⟩, holds, rfl⟩

/-- An assignment to a name that the innermost scope has not is one in the scopes below. -/
theorem apply_assign_cons {scope : Scope} {outer : Scopes} (absent : target.name ∉ scope) :
    apply (scope :: outer) (.assign target value) =
      scope :: outer.apply (.assign target value) := by
  rw [apply_assign, apply_assign, assign?, if_neg absent]
  cases outer.assign? target.name value <;> rfl

/-- An assignment leaves scopes where there were some. -/
theorem apply_assign_ne_nil (nonempty : scopes ≠ []) :
    scopes.apply (.assign target value) ≠ [] := by
  rw [apply_assign]
  cases found : scopes.assign? target.name value with
  | none => exact nonempty
  | some after =>
      obtain ⟨inner, scope, outer, _, _, _, rfl⟩ := exists_of_assign? found
      exact List.append_ne_nil_of_right_ne_nil inner (List.cons_ne_nil _ _)

end Assignment

/-- Declarations alone assign nothing. -/
theorem reachesThrough_of_declarations {scopes : Scopes} {changes : List Change}
    (declarations : ∀ change ∈ changes, ¬ change.isAssignment) :
    scopes.ReachesThrough changes := by
  induction changes generalizing scopes with
  | nil => trivial
  | cons change changes inductionHypothesis =>
      obtain ⟨here, behind⟩ := List.forall_mem_cons.1 declarations
      cases change with
      | define => exact inductionHypothesis behind
      | assign => exact absurd rfl here

/-- Declarations stay in the innermost scope, and assignments that reach through it do below it
what they would do without it. -/
theorem exists_applyAll_cons {scope : Scope} {outer : Scopes} {changes : List Change}
    (reaches : ReachesThrough (scope :: outer) changes) :
    ∃ grown : Scope,
      applyAll (scope :: outer) changes =
        grown :: outer.applyAll (changes.filter (·.isAssignment)) := by
  induction changes generalizing scope outer with
  | nil => exact ⟨scope, rfl⟩
  | cons change changes inductionHypothesis =>
      cases change with
      | define => exact inductionHypothesis reaches
      | assign target value =>
          obtain ⟨absent, behind⟩ := reaches
          rw [apply_assign_cons absent] at behind
          obtain ⟨grown, same⟩ := inductionHypothesis behind
          refine ⟨grown, ?_⟩
          rw [applyAll, List.foldl_cons, apply_assign_cons absent]
          exact same

/-- The assignments among changes leave scopes where there were some. -/
theorem applyAll_assignments_ne_nil {scopes : Scopes} (nonempty : scopes ≠ [])
    (changes : List Change) : scopes.applyAll (changes.filter (·.isAssignment)) ≠ [] := by
  induction changes generalizing scopes with
  | nil => exact nonempty
  | cons change changes inductionHypothesis =>
      cases change with
      | define => exact inductionHypothesis nonempty
      | assign => exact inductionHypothesis (apply_assign_ne_nil nonempty)

/-- A scope that is opened and closed again leaves behind the assignments that reach through it,
and nothing else. -/
theorem pop_applyAll_push {scopes : Scopes} {changes : List Change} (nonempty : scopes ≠ [])
    (reaches : scopes.push.ReachesThrough changes) :
    (scopes.push.applyAll changes).pop = scopes.applyAll (changes.filter (·.isAssignment)) := by
  obtain ⟨grown, same⟩ := exists_applyAll_cons reaches
  obtain ⟨scope, outer, below⟩ :=
    List.exists_cons_of_ne_nil (applyAll_assignments_ne_nil nonempty changes)
  rw [push, same, below, pop]

/-- Look-up, assignment and declaration agree on the scopes. An assignment finds a variable exactly
where a look-up does, and else changes nothing. It changes one scope, the innermost one that has
the name, and there no other name. A declaration changes the innermost scope, or makes a first one.
Both are seen by look-ups of their name and by no others. Where there is a scope, one that is
opened, declared in and closed again leaves no trace, and the assignments that reach through it do
what they would do without it. -/
theorem bindings_agree (scopes : Scopes) (target : Identifier) (value : Value) :
    ((scopes.assign? target.name value).isSome = (scopes.get? target.name).isSome ∧
      (scopes.get? target.name = none → scopes.apply (.assign target value) = scopes)) ∧
    (∀ after, scopes.assign? target.name value = some after →
      scopes.apply (.assign target value) = after ∧
      (∃ inner scope outer, scopes = inner ++ scope :: outer ∧
        (∀ other ∈ inner, target.name ∉ other) ∧ target.name ∈ scope ∧
        after = inner ++ scope.insert target.name value :: outer) ∧
      ∀ name, after.get? name = if target.name = name then some value else scopes.get? name) ∧
    (scopes.apply (.define target.name value) =
        (scopes.headD ∅).insert target.name value :: scopes.tail ∧
      ∀ name, (scopes.apply (.define target.name value)).get? name =
        if target.name = name then some value else scopes.get? name) ∧
    (scopes ≠ [] → ∀ changes,
      ((∀ change ∈ changes, ¬ change.isAssignment) →
        (scopes.push.applyAll changes).pop = scopes) ∧
      (scopes.push.ReachesThrough changes →
        (scopes.push.applyAll changes).pop =
          scopes.applyAll (changes.filter (·.isAssignment)))) := by
  refine ⟨⟨isSome_assign? scopes target.name value, ?_⟩, ?_, ⟨?_, ?_⟩, ?_⟩
  · intro absent
    have missed := isSome_assign? scopes target.name value
    rw [absent, Option.isSome_none, Option.isSome_eq_false_iff, Option.isNone_iff_eq_none] at missed
    rw [apply_assign, missed, Option.getD_none]
  · intro after found
    refine ⟨?_, exists_of_assign? found, get?_of_assign? found⟩
    rw [apply_assign, found, Option.getD_some]
  · cases scopes <;> rfl
  · intro name
    exact get?_define scopes target.name name value
  · intro nonempty changes
    refine ⟨fun declarations => ?_, pop_applyAll_push nonempty⟩
    rw [pop_applyAll_push nonempty (reachesThrough_of_declarations declarations),
      List.filter_eq_nil_iff.2 declarations]
    rfl

/-- A scope is opened over two, declares a name that they have and one that they have not, and is
assigned through while it has another. -/
theorem bindings_agree_reaching :
    let scopes : Scopes := [.ofList [("a", Value.nil)], .ofList [("b", Value.nil)]]
    let changes := [Change.define "a" (.string "x"), .assign ⟨"b", {}⟩ (.string "y"),
      .define "c" .nil, .assign ⟨"d", {}⟩ .nil]
    (scopes ≠ [] ∧ scopes.push.ReachesThrough changes) ∧
      (scopes.push.applyAll changes).pop =
        [.ofList [("a", Value.nil)], .ofList [("b", Value.string "y")]] := by
  intro scopes changes
  have nonempty : scopes ≠ [] := List.cons_ne_nil _ _
  have reaches : scopes.push.ReachesThrough changes := by
    refine ⟨?_, ?_, trivial⟩ <;> change _ ∉ _ <;> decide +kernel
  refine ⟨⟨nonempty, reaches⟩, ?_⟩
  rw [((bindings_agree scopes ⟨"b", {}⟩ .nil).2.2.2 nonempty changes).2 reaches]
  decide +kernel

end Scopes

end TreeWalk
