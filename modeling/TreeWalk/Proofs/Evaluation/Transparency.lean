import TreeWalk.Proofs.Evaluation.Declarations
import TreeWalk.Proofs.Evaluation.Relevance
import TreeWalk.Proofs.Syntax.Targets

/-!
# Blocks that declare nothing

A run in a scope of its own goes along with the run in the scope at hand: what the one keeps in
two scopes, its own and the one below, the other keeps in one. `Scopes.Layered` is the relation,
and it holds for declarations too. Where nothing is declared the scope of its own stays empty, and
when it closes the scopes are the same.
-/

namespace TreeWalk

namespace Scopes

/-- Where the first stack has one scope, at the depth, the second has two that together bind
what that one binds, the upper one first. All other scopes are the same. -/
inductive Layered : Nat → Scopes → Scopes → Prop where
  | split {scope own base : Scope} {outer : Scopes}
      (merged : ∀ name : String, scope[name]? = own[name]?.or base[name]?) :
      Layered 0 (scope :: outer) (own :: base :: outer)
  | under {depth : Nat} {scope : Scope} {first second : Scopes}
      (layered : Layered depth first second) :
      Layered (depth + 1) (scope :: first) (scope :: second)

namespace Layered

variable {depth : Nat} {first second : Scopes}

/-- Look-ups find the same on both sides of a layering. -/
theorem get?_eq (layered : Layered depth first second) (name : String) :
    second.get? name = first.get? name := by
  induction layered with
  | split merged => rw [get?_cons, get?_cons, get?_cons, merged, Option.or_assoc]
  | under _ inductionHypothesis => rw [get?_cons, get?_cons, inductionHypothesis]

/-- A binding in the upper scope hides what the lower one binds. -/
theorem insert_own {scope own base : Scope}
    (merged : ∀ name : String, scope[name]? = own[name]?.or base[name]?) (bound : String)
    (value : Value) (name : String) :
    (scope.insert bound value)[name]? = (own.insert bound value)[name]?.or base[name]? := by
  by_cases same : bound = name <;> simp [Std.ExtTreeMap.getElem?_insert, same, merged]

/-- A binding in the lower scope is seen unless the upper one has the name. -/
theorem insert_base {scope own base : Scope}
    (merged : ∀ name : String, scope[name]? = own[name]?.or base[name]?) {bound : String}
    (absent : bound ∉ own) (value : Value) (name : String) :
    (scope.insert bound value)[name]? = own[name]?.or (base.insert bound value)[name]? := by
  by_cases same : bound = name
  · subst same
    simp [absent]
  · simp [Std.ExtTreeMap.getElem?_insert, same, merged]

/-- The same declaration on both sides keeps a layering. -/
theorem define (layered : Layered depth first second) (name : String) (value : Value) :
    Layered depth (first.define name value) (second.define name value) := by
  cases layered with
  | split merged => exact .split (insert_own merged name value)
  | under layered => exact .under layered

/-- An assignment ends in the one scope, and in one of the two, or below on both sides. -/
theorem assign? (layered : Layered depth first second) (name : String) (value : Value) :
    Option.Rel (Layered depth) (first.assign? name value) (second.assign? name value) := by
  induction layered with
  | @split scope own base outer merged =>
      -- The one scope has the names that the two have between them.
      have either : name ∈ scope ↔ name ∈ own ∨ name ∈ base := by
        simp only [Std.ExtTreeMap.mem_iff_isSome_getElem?, merged, Option.isSome_or,
          Bool.or_eq_true]
      rw [Scopes.assign?, Scopes.assign?, Scopes.assign?]
      by_cases inOwn : name ∈ own
      · rw [if_pos (either.2 (.inl inOwn)), if_pos inOwn]
        exact .some (.split (insert_own merged name value))
      · by_cases inBase : name ∈ base
        · rw [if_pos (either.2 (.inr inBase)), if_neg inOwn, if_pos inBase]
          exact .some (.split (insert_base merged inOwn value))
        · rw [if_neg (either.not.2 (not_or.2 ⟨inOwn, inBase⟩)), if_neg inOwn, if_neg inBase]
          cases outer.assign? name value with
          | none => exact .none
          | some others => exact .some (.split merged)
  | @under _ scope first second layered inductionHypothesis =>
      rw [Scopes.assign?, Scopes.assign?]
      by_cases held : name ∈ scope
      · rw [if_pos held, if_pos held]
        exact .some (.under layered)
      · rw [if_neg held, if_neg held]
        generalize first.assign? name value = here at inductionHypothesis ⊢
        generalize second.assign? name value = there at inductionHypothesis ⊢
        cases inductionHypothesis with
        | none => exact .none
        | some kept => exact .some (.under kept)

/-- To close a scope that was opened on both sides keeps a layering. -/
theorem pop (layered : Layered (depth + 1) first second) :
    Layered depth first.pop second.pop := by
  cases layered with
  | under layered =>
      cases layered with
      | split merged => exact .split merged
      | under layered => exact .under layered

/-- Closing the upper of the two scopes leaves the one, if the upper one is empty. -/
theorem pop_eq (layered : Layered 0 first second) (empty : ∀ name, ¬ second.HasLocal name) :
    second.pop = first := by
  cases layered with
  | @split scope own base outer merged =>
      have same : base = scope := by
        apply Std.ExtTreeMap.ext_getElem?
        intro name
        rw [merged, Std.ExtTreeMap.getElem?_eq_none (empty name), Option.none_or]
      rw [Scopes.pop, same]

end Layered

/-- Layered scopes correspond, whatever the names. -/
def layering : Correspondence id fun _ => True where
  Holds := Layered
  get?_eq layered _ := layered.get?_eq _
  define value layered _ := layered.define _ value
  assign? value layered _ := layered.assign? _ value
  push layered := layered.under
  pop layered := layered.pop

end Scopes

namespace Node

variable {name : String} {scopes : Scopes}

/-- Only a declaration outside of blocks declares a name. -/
theorem Declares.mem_locals {node : Node} (declares : node.Declares name scopes) :
    name ∈ node.locals := by
  induction declares with
  | bare named | initialized named => exact List.mem_singleton.2 named.symm
  | @thenBranch _ _ other _ _ _ _ inside =>
      cases other with
      | none => exact inside
      | some => exact List.mem_append_left _ inside
  | elseBranch _ _ inside => exact List.mem_append_right _ inside

/-- Nodes in turn leave the innermost scope without a name that it has not and that is not
declared outside of blocks. -/
theorem not_hasLocal_evalSequence (last : Option Value) {nodes : List Node}
    (undeclared : ∀ node ∈ nodes, name ∉ node.locals) (nonempty : scopes ≠ [])
    (absent : ¬ scopes.HasLocal name) :
    ¬ (evalSequence last nodes scopes).scopes.HasLocal name := by
  induction nodes generalizing last scopes with
  | nil => exact absent
  | cons node nodes inductionHypothesis =>
      obtain ⟨here, behind⟩ := List.forall_mem_cons.1 undeclared
      have kept : ¬ (node.eval scopes).scopes.HasLocal name := by
        rw [node.hasLocal_eval name nonempty]
        exact not_or.2 ⟨absent, fun declares => here declares.mem_locals⟩
      have growth := node.grows_eval scopes nonempty
      rw [evalSequence]
      cases outcome : (node.eval scopes).result with
      | ok value =>
          rw [Action.bind_of_ok outcome]
          exact inductionHypothesis value behind growth.ne_nil kept
      | error error =>
          rw [Action.bind_of_error outcome]
          exact kept

end Node

/-- A block that declares nothing outside of the blocks in it is transparent. Evaluated in a scope
of its own or in the scope at hand, its nodes have the same value or error, print the same lines
and leave the same scopes. -/
theorem block_without_locals_is_transparent {scopes : Scopes} (nonempty : scopes ≠ [])
    {body : List Node} (undeclared : ∀ node ∈ body, node.locals = []) :
    Node.evalBlock body scopes = Node.evalSequence none body scopes := by
  have corresponds : (Node.evalSequence none body).Corresponds Scopes.layering
      (Node.evalSequence none (Node.renameAll id body)) :=
    Node.corresponds_evalSequence none body fun _ _ => trivial
  rw [Node.renameAll_id] at corresponds
  have layered : Scopes.Layered 0 scopes scopes.push := by
    obtain ⟨scope, outer, rfl⟩ := List.exists_cons_of_ne_nil nonempty
    exact .split fun name => by simp
  have effects := corresponds 0 scopes scopes.push layered
  have empty (name : String) :
      ¬ (Node.evalSequence none body scopes.push).scopes.HasLocal name := by
    refine Node.not_hasLocal_evalSequence none (fun node present => ?_) (List.cons_ne_nil _ _) ?_
    · rw [undeclared node present]
      exact List.not_mem_nil
    · exact Std.ExtTreeMap.not_mem_empty
  calc Node.evalBlock body scopes
      = ⟨(Node.evalSequence none body scopes.push).result,
          (Node.evalSequence none body scopes.push).scopes.pop,
          (Node.evalSequence none body scopes.push).printed⟩ := rfl
    _ = Node.evalSequence none body scopes := by
        rw [← effects.result_eq, effects.printed, effects.scopes.pop_eq empty]

/-- A block assigns, in a conditional too, and its only declaration is in a block within. The nodes
do the same in the scope at hand, up to the error that ends both. -/
theorem block_without_locals_is_transparent_failing :
    let body := (Grammar.parse .statement
      "a = b; \x7b var b = a + a; a = b; print b; \x7d if (true) b = a - b;").produced
    let scopes : Scopes := [.ofList [("a", Value.nil)], .ofList [("b", Value.string "x")]]
    (scopes ≠ [] ∧ ∀ node ∈ body, node.locals = []) ∧
      Node.evalBlock body scopes = Node.evalSequence none body scopes ∧
      (Node.evalSequence none body scopes).printed = ["xx"] ∧
      (Node.evalSequence none body scopes).result =
        .error (.typeMismatch (.binary .sub) .arithmetic ⟨1, 58, 1⟩) := by
  intro body scopes
  have nonempty : scopes ≠ [] := List.cons_ne_nil _ _
  have undeclared : ∀ node ∈ body, node.locals = [] := by decide +kernel
  refine ⟨⟨nonempty, undeclared⟩, block_without_locals_is_transparent nonempty undeclared, ?_, ?_⟩
  · decide +kernel
  · decide +kernel

end TreeWalk
