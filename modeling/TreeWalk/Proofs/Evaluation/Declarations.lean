import TreeWalk.Proofs.Evaluation.Growth

/-!
# Declared names

A declaration that is reached adds its name to the innermost scope, and nothing else adds or
removes a name there. `Node.Declares` and `Node.RunDeclares` say which names that are: those
of the declarations that complete outside of blocks, in the branches that are taken.
-/

namespace TreeWalk

namespace Scopes

/-- The innermost scope has a variable of the name. -/
def HasLocal : Scopes → String → Prop
  | [], _ => False
  | scope :: _, name => name ∈ scope

variable {scopes after : Scopes} {name : String}

/-- Scopes that have the same names have the same ones in the innermost scope. -/
theorem hasLocal_iff_of_sameNames (same : List.Forall₂ Scope.SameNames scopes after)
    (name : String) :
    after.HasLocal name ↔ scopes.HasLocal name := by
  cases same with
  | nil => exact Iff.rfl
  | cons here _ => exact (here name).symm

/-- A declaration adds its own name to the innermost scope, and no other. -/
theorem hasLocal_define {declared : String} {value : Value} :
    (scopes.define declared value).HasLocal name ↔ scopes.HasLocal name ∨ declared = name := by
  cases scopes <;> simp [define, HasLocal, or_comm]

end Scopes

/-- Evaluating the node from the scopes declares the name in the innermost one. It does so
behind the initial value, if there is one, and in the branch that is taken. What a block
declares goes with the scope of the block. -/
inductive Node.Declares (name : String) : Node → Scopes → Prop where
  | bare {declared : Identifier} {span : Span} {scopes : Scopes} (named : declared.name = name) :
      Declares name (.variableDeclaration declared none span) scopes
  | initialized {declared : Identifier} {initial : Expr} {span : Span} {scopes : Scopes}
      {value : Value} (named : declared.name = name)
      (done : (initial.eval scopes).result = .ok value) :
      Declares name (.variableDeclaration declared (some initial) span) scopes
  | thenBranch {condition : Expr} {branch : Node} {other : Option Node} {span : Span}
      {scopes : Scopes} (taken : (condition.evalCondition span scopes).result = .ok true)
      (inside : Declares name branch (condition.evalCondition span scopes).scopes) :
      Declares name (.conditional condition branch other span) scopes
  | elseBranch {condition : Expr} {branch other : Node} {span : Span} {scopes : Scopes}
      (taken : (condition.evalCondition span scopes).result = .ok false)
      (inside : Declares name other (condition.evalCondition span scopes).scopes) :
      Declares name (.conditional condition branch (some other) span) scopes

/-- Running the nodes from the scopes declares the name in the innermost one: one of the nodes
does, and those in front of it complete. -/
inductive Node.RunDeclares (name : String) : List Node → Scopes → Prop where
  | here {node : Node} {nodes : List Node} {scopes : Scopes} (declares : node.Declares name scopes) :
      RunDeclares name (node :: nodes) scopes
  | behind {node : Node} {nodes : List Node} {scopes : Scopes} {value : Option Value}
      (done : (node.eval scopes).result = .ok value)
      (later : RunDeclares name nodes (node.eval scopes).scopes) :
      RunDeclares name (node :: nodes) scopes

namespace Node

variable {name : String} {scopes : Scopes}

/-- Without an initial value a declaration declares its name wherever it is evaluated. -/
theorem declares_bare {declared : Identifier} {span : Span} :
    (variableDeclaration declared none span).Declares name scopes ↔ declared.name = name := by
  constructor
  · intro declares
    cases declares
    assumption
  · exact .bare

/-- With an initial value a declaration declares its name where this value is evaluated without
error. -/
theorem declares_initialized {declared : Identifier} {initial : Expr} {span : Span} :
    (variableDeclaration declared (some initial) span).Declares name scopes ↔
      declared.name = name ∧ ∃ value, (initial.eval scopes).result = .ok value := by
  constructor
  · intro declares
    cases declares with
    | initialized named done => exact ⟨named, _, done⟩
  · rintro ⟨named, value, done⟩
    exact .initialized named done

/-- The branch that is taken declares what the conditional does. -/
theorem declares_conditional {condition : Expr} {branch : Node} {other : Option Node}
    {span : Span} :
    (conditional condition branch other span).Declares name scopes ↔
      ∃ holds, (condition.evalCondition span scopes).result = .ok holds ∧
        ∃ taken ∈ if holds then some branch else other,
          taken.Declares name (condition.evalCondition span scopes).scopes := by
  constructor
  · intro declares
    cases declares with
    | thenBranch taken inside => exact ⟨true, taken, branch, rfl, inside⟩
    | elseBranch taken inside => exact ⟨false, taken, _, rfl, inside⟩
  · rintro ⟨holds, taken, node, found, inside⟩
    cases holds with
    | true =>
        cases found
        exact .thenBranch taken inside
    | false =>
        cases found
        exact .elseBranch taken inside

/-- A node that keeps all names declares none. -/
theorem hasLocal_eval_of_keepsNames {node : Node} (keeps : node.eval.KeepsNames)
    (never : ¬ node.Declares name scopes) :
    (node.eval scopes).scopes.HasLocal name ↔ scopes.HasLocal name ∨ node.Declares name scopes := by
  rw [Scopes.hasLocal_iff_of_sameNames (keeps scopes), or_iff_left never]

/-- Behind a conditional the innermost scope has the names that the branch taken leaves. -/
theorem hasLocal_conditional {condition : Expr} {branch : Node} {other : Option Node} {span : Span}
    {next : Bool → Action (Option Value)}
    (evaluated : (conditional condition branch other span).eval =
      (condition.evalCondition span >>= next))
    (behind : ∀ holds, (condition.evalCondition span scopes).result = .ok holds →
      ((next holds (condition.evalCondition span scopes).scopes).scopes.HasLocal name ↔
        (condition.evalCondition span scopes).scopes.HasLocal name ∨
          ∃ taken ∈ if holds then some branch else other,
            taken.Declares name (condition.evalCondition span scopes).scopes)) :
    ((conditional condition branch other span).eval scopes).scopes.HasLocal name ↔
      scopes.HasLocal name ∨ (conditional condition branch other span).Declares name scopes := by
  have kept := (condition.quiet_evalCondition span).names scopes
  have before := Scopes.hasLocal_iff_of_sameNames kept name
  rw [evaluated, declares_conditional]
  cases outcome : (condition.evalCondition span scopes).result with
  | ok holds =>
      rw [Action.bind_of_ok outcome, behind holds outcome, before]
      simp
  | error error =>
      rw [Action.bind_of_error outcome, before]
      simp

/-- The innermost scope has the names that it had, and those that the node declares. -/
theorem hasLocal_eval (name : String) : (node : Node) → {scopes : Scopes} → scopes ≠ [] →
    ((node.eval scopes).scopes.HasLocal name ↔ scopes.HasLocal name ∨ node.Declares name scopes)
  | .expression value, _, _ =>
      hasLocal_eval_of_keepsNames (keepsNames_expression value) (by rintro ⟨⟩)
  | .expressionStatement value _, _, _ =>
      hasLocal_eval_of_keepsNames (keepsNames_expression value) (by rintro ⟨⟩)
  | .print value span, _, _ =>
      hasLocal_eval_of_keepsNames (keepsNames_print value span) (by rintro ⟨⟩)
  | .variableDeclaration declared none _, _, _ => by
      rw [declares_bare]
      exact Scopes.hasLocal_define
  | .variableDeclaration declared (some initial) _, scopes, _ => by
      have kept := initial.quiet_eval.names scopes
      have before := Scopes.hasLocal_iff_of_sameNames kept name
      rw [declares_initialized, Node.eval]
      cases outcome : (initial.eval scopes).result with
      | ok value =>
          rw [Action.bind_of_ok outcome]
          change (Scopes.define _ _ _).HasLocal name ↔ _
          rw [Scopes.hasLocal_define, before]
          simp
      | error error =>
          rw [Action.bind_of_error outcome, before]
          simp
  | .block body _, scopes, nonempty => by
      -- What the block declares goes with its scope.
      have kept := (grows_evalSequence none body).sameNames_enclosed nonempty
      rw [Node.eval, Scopes.hasLocal_iff_of_sameNames kept, or_iff_left (by rintro ⟨⟩)]
  | .conditional condition branch none span, scopes, nonempty => by
      have kept := (condition.quiet_evalCondition span).names.grows scopes nonempty
      apply hasLocal_conditional rfl
      intro holds _
      cases holds with
      | true => simpa using branch.hasLocal_eval name kept.ne_nil
      | false => simp
  | .conditional condition branch (some other) span, scopes, nonempty => by
      have kept := (condition.quiet_evalCondition span).names.grows scopes nonempty
      apply hasLocal_conditional rfl
      intro holds _
      cases holds with
      | true => simpa using branch.hasLocal_eval name kept.ne_nil
      | false => simpa using other.hasLocal_eval name kept.ne_nil
  | .whileLoop _ _ _, _, _ =>
      hasLocal_eval_of_keepsNames (Action.quiet_ofExcept _).names (by rintro ⟨⟩)
  | .forLoop _ _ _ _ _, _, _ =>
      hasLocal_eval_of_keepsNames (Action.quiet_ofExcept _).names (by rintro ⟨⟩)
  | .returned _ _, _, _ =>
      hasLocal_eval_of_keepsNames (Action.quiet_ofExcept _).names (by rintro ⟨⟩)
  | .classDeclaration _ _ _ _, _, _ =>
      hasLocal_eval_of_keepsNames (Action.quiet_ofExcept _).names (by rintro ⟨⟩)
  | .functionDeclaration _, _, _ =>
      hasLocal_eval_of_keepsNames (Action.quiet_ofExcept _).names (by rintro ⟨⟩)

/-- Nodes declare a name if the first one does, or if it completes and the others declare the name
from where it ends. -/
theorem runDeclares_cons {node : Node} {nodes : List Node} :
    RunDeclares name (node :: nodes) scopes ↔
      node.Declares name scopes ∨
        ∃ value, (node.eval scopes).result = .ok value ∧
          RunDeclares name nodes (node.eval scopes).scopes := by
  constructor
  · intro declares
    cases declares with
    | here declares => exact .inl declares
    | behind done later => exact .inr ⟨_, done, later⟩
  · rintro (declares | ⟨value, done, later⟩)
    · exact .here declares
    · exact .behind done later

/-- The innermost scope has the names that it had, and those that the run declares, also where
the run ends in an error. -/
theorem hasLocal_run (name : String) (last : Option Value) (nodes : List Node) {scopes : Scopes}
    (nonempty : scopes ≠ []) :
    (Node.run last nodes scopes).scopes.HasLocal name ↔
      scopes.HasLocal name ∨ RunDeclares name nodes scopes := by
  induction nodes generalizing last scopes with
  | nil =>
      rw [Node.run, or_iff_left]
      rintro ⟨⟩
  | cons node nodes inductionHypothesis =>
      have here := node.hasLocal_eval name nonempty
      have growth := node.grows_eval scopes nonempty
      rw [Node.run, runDeclares_cons, ← or_assoc, ← here]
      generalize node.eval scopes = effect at growth ⊢
      obtain ⟨error | value, middle, printed⟩ := effect
      · simp
      · dsimp only
        rw [inductionHypothesis value growth.ne_nil]
        simp

end Node

end TreeWalk
