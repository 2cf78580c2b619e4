import TreeWalk.Proofs.Evaluation.Frame
import TreeWalk.Proofs.Evaluation.Relevance

/-!
# Independent nodes

Two nodes of which neither gives a value to a name of the other can be evaluated in either order.
Each finds its own names as they were, by what the other may change, and does with them the same,
by what evaluation depends on. Both are said of every scope of the stack, so the scopes behind
both orders are equal.
-/

namespace TreeWalk

namespace Scopes

variable {known others : String → Prop} {first second : Scopes}

namespace Alike

/-- Likeness goes both ways. -/
theorem symm (alike : Alike known first second) : Alike known second first :=
  List.Forall₂.flip (List.Forall₂.imp (fun _ _ same name present => (same name present).symm) alike)

/-- Scopes that are alike in some names and in others are alike in all of them. -/
theorem union (alike : Alike known first second) (alikeOthers : Alike others first second) :
    Alike (fun name => known name ∨ others name) first second := by
  refine List.Forall₂.mp (fun _ _ same sameOthers name present => ?_) alike alikeOthers
  exact present.elim (same name) (sameOthers name)

/-- Scopes that are alike one by one agree in each of them. -/
theorem agreeOn {scope other : Scope} {outer below : Scopes}
    (alike : Alike known (scope :: outer) (other :: below)) :
    AgreeOn known outer.length (scope :: outer) (other :: below) := by
  induction outer generalizing scope other below with
  | nil =>
      cases alike with
      | cons here outside =>
          cases outside
          refine .found (List.cons_ne_nil _ _) (List.cons_ne_nil _ _) fun name present => ?_
          rw [get?_cons, get?_cons, here name present]
  | cons next outer inductionHypothesis =>
      cases alike with
      | cons here outside =>
          cases outside with
          | cons following lower => exact .opened here (inductionHypothesis (.cons following lower))

end Alike

/-- Scopes that agree down to the last one are alike. -/
theorem AgreeOn.alike {depth : Nat} (agree : AgreeOn known depth first second)
    (firstLength : first.length = depth + 1) (secondLength : second.length = depth + 1) :
    Alike known first second := by
  induction agree with
  | found _ _ same =>
      obtain ⟨scope, rfl⟩ := List.length_eq_one_iff.1 firstLength
      obtain ⟨other, rfl⟩ := List.length_eq_one_iff.1 secondLength
      refine .cons (fun name present => ?_) .nil
      simpa [get?_cons] using same name present
  | opened here _ inductionHypothesis =>
      rw [List.length_cons, Nat.add_right_cancel_iff] at firstLength secondLength
      exact .cons here (inductionHypothesis firstLength secondLength)

end Scopes

namespace Node

open Scopes (Alike)

/-- Over scopes that are alike in the names of a node, and maybe in others, the node does the same,
and leaves scopes that are alike in all these names. -/
theorem eval_of_alike {known : String → Prop} {scopes others : Scopes} (node : Node)
    (within : ∀ name ∈ node.names, known name) (nonempty : scopes ≠ [])
    (alike : Alike known scopes others) :
    (node.eval scopes).result = (node.eval others).result ∧
      (node.eval scopes).printed = (node.eval others).printed ∧
      Alike known (node.eval scopes).scopes (node.eval others).scopes := by
  have growth := node.grows_eval scopes nonempty
  have growthOther := node.grows_eval others (alike.ne_nil nonempty)
  have corresponds : node.eval.Corresponds (Scopes.agreement known) (node.rename id).eval :=
    node.corresponds_eval within
  rw [node.rename_id] at corresponds
  cases alike with
  | nil => cases nonempty rfl
  | cons here outside =>
      have effects := corresponds _ _ _ (Alike.agreeOn (.cons here outside))
      refine ⟨effects.result_eq, effects.printed.symm, effects.scopes.alike ?_ ?_⟩
      · rw [growth.length_eq, List.length_cons]
      · rw [growthOther.length_eq, List.length_cons, outside.length_eq]

/-- Two nodes of which neither gives a value to a name of the other, in either order: the second
does over the first scopes what it does behind the first node, and the first does behind it what
it does over them. The scopes at the end are the same. -/
theorem eval_of_apart {first second : Node} {scopes : Scopes} (nonempty : scopes ≠ [])
    (firstApart : ∀ name ∈ first.names, name ∉ second.targets)
    (secondApart : ∀ name ∈ second.names, name ∉ first.targets) :
    let middle := (first.eval scopes).scopes
    let between := (second.eval scopes).scopes
    ((second.eval scopes).result = (second.eval middle).result ∧
      (second.eval scopes).printed = (second.eval middle).printed) ∧
    ((first.eval between).result = (first.eval scopes).result ∧
      (first.eval between).printed = (first.eval scopes).printed) ∧
    (first.eval between).scopes = (second.eval middle).scopes := by
  intro middle between
  have firstKeeps : Alike (· ∉ first.targets) scopes middle := first.alike_eval nonempty
  have secondKeeps : Alike (· ∉ second.targets) scopes between := second.alike_eval nonempty
  obtain ⟨secondResult, secondPrinted, secondAlike⟩ :=
    second.eval_of_alike secondApart nonempty firstKeeps
  obtain ⟨firstResult, firstPrinted, firstAlike⟩ :=
    first.eval_of_alike firstApart nonempty secondKeeps
  refine ⟨⟨secondResult, secondPrinted⟩, ⟨firstResult.symm, firstPrinted.symm⟩, ?_⟩
  -- Either the first node keeps a name, and so it is behind both as the second leaves it, or the
  -- second one does.
  have firstKeepsBehind := first.alike_eval (secondKeeps.ne_nil nonempty)
  have secondKeepsBehind := second.alike_eval (firstKeeps.ne_nil nonempty)
  have outsideFirst := secondAlike.symm.trans firstKeepsBehind
  have outsideSecond := secondKeepsBehind.symm.trans firstAlike
  refine (outsideFirst.union outsideSecond).eq fun name => ?_
  by_cases target : name ∈ first.targets
  · exact .inr (firstApart name (mem_names_of_targets target))
  · exact .inl target

end Node

/-- Independent nodes commute. If no name that occurs in one of them is assigned or declared in
the other, and both complete one after the other, then they complete in the other order too. Each
has the same value and prints the same lines, and the scopes at the end are the same. -/
theorem independent_nodes_commute {first second : Node} {scopes middle after : Scopes}
    {firstValue secondValue : Option Value} {firstLines secondLines : List String}
    (nonempty : scopes ≠ []) (firstApart : ∀ name ∈ first.names, name ∉ second.targets)
    (secondApart : ∀ name ∈ second.names, name ∉ first.targets)
    (firstDone : first.eval scopes = ⟨.ok firstValue, middle, firstLines⟩)
    (secondDone : second.eval middle = ⟨.ok secondValue, after, secondLines⟩) :
    ∃ between, second.eval scopes = ⟨.ok secondValue, between, secondLines⟩ ∧
      first.eval between = ⟨.ok firstValue, after, firstLines⟩ := by
  obtain ⟨⟨secondResult, secondPrinted⟩, ⟨firstResult, firstPrinted⟩, same⟩ :=
    Node.eval_of_apart nonempty firstApart secondApart
  simp only [firstDone, secondDone] at secondResult secondPrinted firstResult firstPrinted same
  refine ⟨(second.eval scopes).scopes, ?_, ?_⟩
  · rw [← secondResult, ← secondPrinted]
  · rw [← firstResult, ← firstPrinted, ← same]

/-- A block that assigns one name and a conditional that declares another of its own and assigns a
third. Both print, and both read a fourth. -/
theorem independent_nodes_commute_printing :
    let body := (Grammar.parse .statement "a = b + b; print a;").produced
    let branch := (Grammar.parse .statement "var d = b; c = d; print c;").produced
    let first : Node := .block body ⟨1, 0, 1⟩
    let second : Node := .conditional (.terminal ⟨.keyword .trueWord, ⟨1, 4, 4⟩⟩)
      (.block branch ⟨1, 10, 1⟩) none ⟨1, 0, 2⟩
    let scopes : Scopes := [.ofList [("a", Value.nil)],
      .ofList [("b", Value.string "x"), ("c", Value.nil)]]
    scopes ≠ [] ∧ (∀ name ∈ first.names, name ∉ second.targets) ∧
      (∀ name ∈ second.names, name ∉ first.targets) ∧
      ∃ middle after between,
        first.eval scopes = ⟨.ok none, middle, ["xx"]⟩ ∧
        second.eval middle = ⟨.ok none, after, ["x"]⟩ ∧
        second.eval scopes = ⟨.ok none, between, ["x"]⟩ ∧
        first.eval between = ⟨.ok none, after, ["xx"]⟩ := by
  intro body branch first second scopes
  have nonempty : scopes ≠ [] := List.cons_ne_nil _ _
  have firstApart : ∀ name ∈ first.names, name ∉ second.targets := by decide +kernel
  have secondApart : ∀ name ∈ second.names, name ∉ first.targets := by decide +kernel
  have firstResult : (first.eval scopes).result = .ok none := by decide +kernel
  have firstPrinted : (first.eval scopes).printed = ["xx"] := by decide +kernel
  have secondResult : (second.eval (first.eval scopes).scopes).result = .ok none := by
    decide +kernel
  have secondPrinted : (second.eval (first.eval scopes).scopes).printed = ["x"] := by
    decide +kernel
  have firstDone : first.eval scopes = ⟨.ok none, (first.eval scopes).scopes, ["xx"]⟩ := by
    rw [← firstResult, ← firstPrinted]
  have secondDone : second.eval (first.eval scopes).scopes =
      ⟨.ok none, (second.eval (first.eval scopes).scopes).scopes, ["x"]⟩ := by
    rw [← secondResult, ← secondPrinted]
  obtain ⟨between, secondBefore, firstBehind⟩ :=
    independent_nodes_commute nonempty firstApart secondApart firstDone secondDone
  exact ⟨nonempty, firstApart, secondApart, _, _, between, firstDone, secondDone, secondBefore,
    firstBehind⟩

end TreeWalk
