import TreeWalk.Proofs.Evaluation.Growth

/-!
# What evaluation leaves as it is

A name that is neither assigned nor declared in a tree is bound as before in each of the scopes,
not only in the one where a look-up finds it.
-/

namespace TreeWalk

namespace Scopes

variable {known allowed : String → Prop} {scopes middle after : Scopes} {name : String}
  {value : Value}

/-- The scopes are as many, and each binds the known names, or leaves them unbound, as the one
in its place does. -/
def Alike (known : String → Prop) : Scopes → Scopes → Prop :=
  List.Forall₂ fun first second : Scope => ∀ name, known name → second[name]? = first[name]?

namespace Alike

/-- Scopes are alike to themselves. -/
theorem refl (scopes : Scopes) : Alike known scopes scopes :=
  List.forall₂_same.2 fun _ _ _ _ => rfl

/-- Likeness carries over from one change to the next. -/
theorem trans (first : Alike known scopes middle) (second : Alike known middle after) :
    Alike known scopes after :=
  forall₂_trans (fun here next name present => (next name present).trans (here name present))
    first second

/-- Scopes that bind the known names alike do so with fewer of them. -/
theorem mono {fewer : String → Prop} (alike : Alike known scopes after)
    (among : ∀ name, fewer name → known name) : Alike fewer scopes after :=
  List.Forall₂.imp (fun _ _ same name present => same name (among name present)) alike

/-- Where one of two alike stacks has a scope, so has the other. -/
theorem ne_nil (alike : Alike known scopes after) (nonempty : scopes ≠ []) : after ≠ [] := by
  cases alike with
  | nil => exact nonempty
  | cons => exact List.cons_ne_nil _ _

/-- The scope that was opened goes, and those below it are still alike. -/
theorem pop (alike : Alike known scopes.push after) (nonempty : scopes ≠ []) :
    Alike known scopes after.pop := by
  cases alike with
  | cons _ outside => exact forall₂_pop outside nonempty

/-- Scopes are determined by what they bind. -/
theorem eq (alike : Alike known scopes after) (all : ∀ name, known name) : after = scopes := by
  induction alike with
  | nil => rfl
  | cons here _ inductionHypothesis =>
      rw [inductionHypothesis, Std.ExtTreeMap.ext_getElem? fun name => here name (all name)]

end Alike

/-- A binding of another name makes no difference. -/
theorem getElem?_insert_of_unknown (unknown : ¬ known name) (scope : Scope) (other : String)
    (present : known other) : (scope.insert name value)[other]? = scope[other]? := by
  have apart : name ≠ other := by
    rintro rfl
    exact unknown present
  simp [Std.ExtTreeMap.getElem?_insert, apart]

/-- A declaration of an unknown name changes no known one. -/
theorem alike_define (nonempty : scopes ≠ []) (unknown : ¬ known name) :
    Alike known scopes (scopes.define name value) := by
  cases scopes with
  | nil => cases nonempty rfl
  | cons scope outer => exact .cons (getElem?_insert_of_unknown unknown scope) (Alike.refl outer)

/-- An assignment to an unknown name changes no known one. -/
theorem alike_assign (found : scopes.assign? name value = some after) (unknown : ¬ known name) :
    Alike known scopes after :=
  forall₂_assign (fun _ _ _ => rfl) (fun scope _ => getElem?_insert_of_unknown unknown scope) found

/-- Names that are not allowed stay as they are in every scope. -/
theorem Moves.alike (moves : Moves allowed scopes after) (nonempty : scopes ≠ []) :
    Alike (fun name => ¬ allowed name) scopes after := by
  induction moves with
  | still => exact .refl _
  | define _ permitted => exact alike_define nonempty (not_not_intro permitted)
  | assign permitted found => exact alike_assign found (not_not_intro permitted)
  | enclosed _ inside => exact (inside (List.cons_ne_nil _ _)).pop nonempty
  | trans _ _ first second =>
      have front := first nonempty
      exact front.trans (second (front.ne_nil nonempty))

end Scopes

/-- Whatever a node does, each of the scopes binds every name but the targets as before. -/
theorem Node.alike_eval (node : Node) {scopes : Scopes} (nonempty : scopes ≠ []) :
    Scopes.Alike (· ∉ node.targets) scopes (node.eval scopes).scopes :=
  ((node.confined_eval node.confined_targets).moves scopes).alike nonempty

/-- What an expression does not assign is bound as before in each of the scopes. -/
theorem Expr.alike_eval (value : Expr) (scopes : Scopes) :
    Scopes.Alike (· ∉ value.assigned) scopes (value.eval scopes).scopes := by
  cases scopes with
  | nil =>
      have none := value.quiet_eval.names []
      generalize (value.eval []).scopes = after at none ⊢
      cases none
      exact .nil
  | cons scope outer =>
      have confined : value.eval.Confined (· ∈ value.assigned) True :=
        Expr.confined_eval fun _ => id
      exact (confined.moves _).alike (List.cons_ne_nil scope outer)

/-- Only targets change. A node, whether it completes or fails at any depth, leaves every name
that it neither assigns nor declares as it is in each of the scopes that it found. So an
expression that assigns nothing leaves all scopes as they are, and it prints nothing, as does
every node that has no `print` in it. -/
theorem only_targets_change :
    (∀ (node : Node) (scopes : Scopes), scopes ≠ [] → ∀ name ∉ node.targets,
      List.Forall₂ (fun before after : Scope => after[name]? = before[name]?) scopes
        (node.eval scopes).scopes) ∧
    (∀ (value : Expr) (scopes : Scopes), value.assigned = [] →
      (value.eval scopes).scopes = scopes ∧ (value.eval scopes).printed = []) ∧
    (∀ (node : Node) (scopes : Scopes), node.prints = false →
      (node.eval scopes).printed = []) := by
  refine ⟨?_, ?_, ?_⟩
  · intro node scopes nonempty name untouched
    exact (node.alike_eval nonempty).imp fun _ _ same => same name untouched
  · intro value scopes unassigned
    refine ⟨(value.alike_eval scopes).eq fun name => ?_, value.quiet_eval.silent scopes⟩
    rw [unassigned]
    exact List.not_mem_nil
  · intro node scopes silent
    refine (node.confined_eval node.confined_targets).silent scopes ?_
    rw [silent]
    exact Bool.false_ne_true

/-- A block that declares one name, assigns another and fails within: a third one, which two scopes
bind, keeps both its values. -/
theorem only_targets_change_failing :
    let body :=
      (Grammar.parse .statement "var b = c; \x7b a = b + c; b = a - c; \x7d").produced
    let node : Node := .block body ⟨1, 0, 1⟩
    let sum : Expr := .binary (.terminal ⟨.identifier "c", ⟨1, 0, 1⟩⟩) .add
      (.terminal ⟨.identifier "d", ⟨1, 4, 1⟩⟩) ⟨1, 2, 1⟩
    let scopes : Scopes := [.ofList [("a", Value.nil), ("c", Value.string "x")],
      .ofList [("c", Value.string "y")]]
    (scopes ≠ [] ∧ "c" ∉ node.targets ∧
      List.Forall₂ (fun before after : Scope => after["c"]? = before["c"]?) scopes
        (node.eval scopes).scopes) ∧
    (sum.assigned = [] ∧ (sum.eval scopes).scopes = scopes ∧ (sum.eval scopes).printed = []) ∧
    (node.prints = false ∧ (node.eval scopes).printed = []) ∧
    (node.eval scopes).result = .error (.typeMismatch (.binary .sub) .arithmetic ⟨1, 30, 1⟩) := by
  intro body node sum scopes
  obtain ⟨changed, unassigned, silent⟩ := only_targets_change
  have nonempty : scopes ≠ [] := List.cons_ne_nil _ _
  have untouched : "c" ∉ node.targets := by decide +kernel
  have quiet : node.prints = false := by decide +kernel
  refine ⟨⟨nonempty, untouched, changed node scopes nonempty "c" untouched⟩,
    ⟨rfl, unassigned sum scopes rfl⟩, ⟨quiet, silent node scopes quiet⟩, ?_⟩
  decide +kernel

end TreeWalk
