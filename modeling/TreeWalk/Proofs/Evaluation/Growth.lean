import Mathlib.Data.List.Forall2
import TreeWalk.Proofs.Evaluation.Moves

/-!
# What evaluation does to scopes

Evaluation opens no scope that it does not close again. It may declare variables in the
innermost scope and give new values to any, and it never removes one. `Scopes.Grows` says
so of the scopes before and after, whether or not the evaluation failed.
-/

namespace TreeWalk

/-- Two scopes hold variables of the same names. -/
def Scope.SameNames (first second : Scope) : Prop :=
  ∀ name, name ∈ first ↔ name ∈ second

instance : Std.Refl Scope.SameNames := ⟨fun _ _ => Iff.rfl⟩

namespace Scopes

/-- The innermost scope may have gained names, and the outer ones have the same names. -/
inductive Grows : Scopes → Scopes → Prop where
  | intro {scope grown : Scope} {outer others : Scopes}
      (kept : ∀ name, name ∈ scope → name ∈ grown)
      (same : List.Forall₂ Scope.SameNames outer others) : Grows (scope :: outer) (grown :: others)

variable {scopes middle after : Scopes}

/-- What is carried from one scope to the next is carried along stacks of them. -/
theorem forall₂_trans {related : Scope → Scope → Prop}
    (carried : ∀ {scope next last}, related scope next → related next last → related scope last)
    (first : List.Forall₂ related scopes middle) (second : List.Forall₂ related middle after) :
    List.Forall₂ related scopes after := by
  induction first generalizing after with
  | nil => exact second
  | cons here _ inductionHypothesis =>
      cases second with
      | cons next others => exact .cons (carried here next) (inductionHypothesis others)

/-- Where the innermost scope goes, those below it stay in their places. -/
theorem forall₂_pop {α : Type} {related : α → Scope → Prop} {outer : List α} {scope : Scope}
    (paired : List.Forall₂ related outer scopes) (nonempty : outer ≠ []) :
    List.Forall₂ related outer (pop (scope :: scopes)) := by
  cases paired with
  | nil => cases nonempty rfl
  | cons here others => exact .cons here others

/-- Having the same names carries over from one change to the next. -/
theorem sameNames_trans (first : List.Forall₂ Scope.SameNames scopes middle)
    (second : List.Forall₂ Scope.SameNames middle after) :
    List.Forall₂ Scope.SameNames scopes after :=
  forall₂_trans (fun here next name => (here name).trans (next name)) first second

namespace Grows

/-- Scopes with the same names grow into each other. -/
theorem of_sameNames (same : List.Forall₂ Scope.SameNames scopes after) (nonempty : scopes ≠ []) :
    Grows scopes after := by
  cases same with
  | nil => cases nonempty rfl
  | cons here others => exact .intro (fun name => (here name).1) others

/-- Scopes that stay as they are have grown by nothing. -/
theorem refl (nonempty : scopes ≠ []) : Grows scopes scopes :=
  of_sameNames (List.forall₂_refl scopes) nonempty

/-- Growth carries over from one change to the next. -/
theorem trans (first : Grows scopes middle) (second : Grows middle after) :
    Grows scopes after := by
  cases first with
  | intro kept same =>
      cases second with
      | intro keptLater sameLater =>
          exact .intro (fun name held => keptLater name (kept name held))
            (sameNames_trans same sameLater)

/-- Scopes that have grown are not empty. -/
theorem ne_nil (grows : Grows scopes after) : after ≠ [] := by
  cases grows
  exact List.cons_ne_nil _ _

/-- The number of scopes stays. -/
theorem length_eq (grows : Grows scopes after) : after.length = scopes.length := by
  cases grows with
  | intro _ same => rw [List.length_cons, List.length_cons, same.length_eq]

/-- The innermost scope of its own goes when it closes, and the others have kept their
names. -/
theorem sameNames_pop (grows : Grows scopes.push after) (nonempty : scopes ≠ []) :
    List.Forall₂ Scope.SameNames scopes after.pop := by
  cases grows with
  | intro _ same => exact forall₂_pop same nonempty

end Grows

/-- A declaration adds its name to the innermost scope. -/
theorem grows_define (nonempty : scopes ≠ []) (name : String) (value : Value) :
    Grows scopes (scopes.define name value) := by
  cases scopes with
  | nil => cases nonempty rfl
  | cons scope outer =>
      refine .intro (fun other held => ?_) (List.forall₂_refl outer)
      exact Std.ExtTreeMap.mem_insert.2 (.inr held)

/-- An assignment binds its name anew in one of the scopes that have it, and leaves the others. -/
theorem forall₂_assign {related : Scope → Scope → Prop} {name : String} {value : Value}
    (same : ∀ scope, related scope scope)
    (bound : ∀ scope : Scope, name ∈ scope → related scope (scope.insert name value))
    (found : scopes.assign? name value = some after) : List.Forall₂ related scopes after := by
  induction scopes generalizing after with
  | nil => cases found
  | cons scope outer inductionHypothesis =>
      rw [assign?] at found
      split at found
      next held =>
        cases found
        exact .cons (bound scope held) (List.forall₂_same.2 fun scope _ => same scope)
      next =>
        obtain ⟨others, assigned, rfl⟩ := Option.map_eq_some_iff.1 found
        exact .cons (same scope) (inductionHypothesis assigned)

/-- An assignment gives a value to a variable that is there. -/
theorem sameNames_assign {name : String} {value : Value}
    (found : scopes.assign? name value = some after) :
    List.Forall₂ Scope.SameNames scopes after := by
  refine forall₂_assign (fun _ _ => Iff.rfl) (fun scope held other => ?_) found
  simp only [Std.ExtTreeMap.mem_insert, Std.LawfulEqCmp.compare_eq_iff_eq]
  constructor
  · exact .inr
  · rintro (rfl | present)
    · exact held
    · exact present

/-- Whatever is declared and assigned, the scopes grow at most. -/
theorem Moves.grows {allowed : String → Prop} (moves : Moves allowed scopes after)
    (nonempty : scopes ≠ []) : Grows scopes after := by
  induction moves with
  | still => exact .refl nonempty
  | define value => exact grows_define nonempty _ value
  | assign _ found => exact .of_sameNames (sameNames_assign found) nonempty
  | enclosed _ inside =>
      have growth := inside (List.cons_ne_nil _ _)
      exact .of_sameNames (growth.sameNames_pop nonempty) nonempty
  | trans _ _ first second =>
      have growth := first nonempty
      exact growth.trans (second growth.ne_nil)

end Scopes

namespace Action

variable {α β : Type}

/-- The action keeps the names of every scope, whether or not it fails. -/
def KeepsNames (action : Action α) : Prop :=
  ∀ scopes, List.Forall₂ Scope.SameNames scopes (action scopes).scopes

/-- Where the scopes are left as they are, they keep their names. -/
theorem keepsNames_of_scopes_eq {action : Action α}
    (still : ∀ scopes, (action scopes).scopes = scopes) : action.KeepsNames := by
  intro scopes
  rw [still]
  exact List.forall₂_refl scopes

/-- Actions in turn keep the names if each of them does. -/
theorem KeepsNames.bind {first : Action α} {next : α → Action β} (front : first.KeepsNames)
    (behind : ∀ value, (next value).KeepsNames) : (first >>= next).KeepsNames := by
  intro scopes
  cases outcome : (first scopes).result with
  | ok value =>
      rw [bind_of_ok outcome]
      exact Scopes.sameNames_trans (front scopes) (behind value _)
  | error error =>
      rw [bind_of_error outcome]
      exact front scopes

/-- The action keeps the names of every scope and prints nothing. -/
structure Quiet (action : Action α) : Prop where
  names : action.KeepsNames
  silent (scopes : Scopes) : (action scopes).printed = []

/-- Returning a value is quiet. -/
theorem quiet_pure (value : α) : Quiet (pure value) :=
  ⟨keepsNames_of_scopes_eq fun _ => rfl, fun _ => rfl⟩

/-- A result is quiet, also where it is an error. -/
theorem quiet_ofExcept (result : Except RuntimeError α) : Quiet (ofExcept result) :=
  ⟨keepsNames_of_scopes_eq fun _ => rfl, fun _ => rfl⟩

/-- A look-up is quiet. -/
theorem quiet_lookup (name : String) (span : Span) : Quiet (lookup name span) := by
  constructor
  · apply keepsNames_of_scopes_eq
    intro scopes
    unfold lookup
    split <;> rfl
  · intro scopes
    unfold lookup
    split <;> rfl

/-- An assignment is quiet, as it finds the name in its scope already. -/
theorem quiet_assign (name : Identifier) (value : Value) : Quiet (assign name value) := by
  constructor
  · intro scopes
    unfold assign
    split
    next found => exact Scopes.sameNames_assign found
    next => exact List.forall₂_refl scopes
  · intro scopes
    unfold assign
    split <;> rfl

/-- A sequence is quiet if its parts are. -/
theorem Quiet.bind {first : Action α} {next : α → Action β} (front : first.Quiet)
    (behind : ∀ value, (next value).Quiet) : (first >>= next).Quiet := by
  refine ⟨front.names.bind fun value => (behind value).names, fun scopes => ?_⟩
  cases outcome : (first scopes).result with
  | ok value =>
      rw [bind_of_ok outcome, front.silent, (behind value).silent]
      rfl
  | error error =>
      rw [bind_of_error outcome]
      exact front.silent scopes

/-- The action lets any scopes grow at most. -/
def Grows (action : Action α) : Prop :=
  ∀ scopes : Scopes, scopes ≠ [] → Scopes.Grows scopes (action scopes).scopes

/-- An action that keeps all names grows the scopes by nothing. -/
theorem KeepsNames.grows {action : Action α} (keeps : action.KeepsNames) : action.Grows :=
  fun scopes nonempty => .of_sameNames (keeps scopes) nonempty

/-- A scope of its own leaves the names outside as they are. -/
theorem Grows.sameNames_enclosed {action : Action α} (inside : action.Grows) {scopes : Scopes}
    (nonempty : scopes ≠ []) :
    List.Forall₂ Scope.SameNames scopes (action.enclosed scopes).scopes :=
  (inside scopes.push (List.cons_ne_nil _ _)).sameNames_pop nonempty

/-- Whatever an action is confined to, it only grows the scopes. -/
theorem Confined.grows {action : Action α} {allowed : String → Prop} {mayPrint : Prop}
    (confined : action.Confined allowed mayPrint) : action.Grows :=
  fun scopes nonempty => (confined.moves scopes).grows nonempty

end Action

/-- A terminal is quiet. -/
theorem Token.quiet_eval (token : Token) : token.eval.Quiet := by
  unfold Token.eval
  split
  · exact Action.quiet_pure _
  · exact Action.quiet_lookup _ _
  · exact Action.quiet_ofExcept _

/-- Expressions declare nothing and print nothing. -/
theorem Expr.quiet_eval (value : Expr) : value.eval.Quiet := by
  induction value with
  | terminal token => exact token.quiet_eval
  | group inner _ inside => exact inside
  | unary _ _ _ behind => exact behind.bind fun _ => Action.quiet_ofExcept _
  | binary _ _ _ _ before behind =>
      exact before.bind fun _ => behind.bind fun _ => Action.quiet_ofExcept _
  | logical _ operator _ _ before behind =>
      refine before.bind fun value => ?_
      split
      · exact Action.quiet_pure _
      · exact behind
  | assign target _ _ behind =>
      exact behind.bind fun value => (Action.quiet_assign target value).bind fun _ =>
        Action.quiet_pure _

/-- A condition is quiet. -/
theorem Expr.quiet_evalCondition (condition : Expr) (span : Span) :
    (condition.evalCondition span).Quiet := by
  refine condition.quiet_eval.bind fun value => ?_
  split
  · exact Action.quiet_pure _
  · exact Action.quiet_ofExcept _

/-- An expression on its own keeps all names. -/
theorem Node.keepsNames_expression (value : Expr) : (Node.expression value).eval.KeepsNames :=
  value.quiet_eval.names.bind fun _ => (Action.quiet_pure _).names

/-- Printing keeps all names. -/
theorem Node.keepsNames_print (value : Expr) (span : Span) :
    (Node.print value span).eval.KeepsNames := by
  refine value.quiet_eval.names.bind fun _ => ?_
  refine (Action.keepsNames_of_scopes_eq fun _ => rfl).bind fun _ => ?_
  exact (Action.quiet_pure _).names

/-- Nodes let scopes grow at most. -/
theorem Node.grows_eval (node : Node) : node.eval.Grows :=
  (node.confined_eval node.confined_all).grows

/-- Nodes in turn let scopes grow at most. -/
theorem Node.grows_evalSequence (last : Option Value) (nodes : List Node) :
    (Node.evalSequence last nodes).Grows :=
  (Node.confined_evalSequence last nodes fun node _ => node.confined_all).grows

/-- A run lets scopes grow at most. -/
theorem Node.grows_run (last : Option Value) (nodes : List Node) {scopes : Scopes}
    (nonempty : scopes ≠ []) : Scopes.Grows scopes (Node.run last nodes scopes).scopes := by
  induction nodes generalizing last scopes with
  | nil => exact .refl nonempty
  | cons node nodes inductionHypothesis =>
      have growth := node.grows_eval scopes nonempty
      rw [Node.run]
      split
      next outcome =>
        rw [outcome] at growth
        exact growth.trans (inductionHypothesis _ growth.ne_nil)
      next outcome =>
        rw [outcome] at growth
        exact growth

/-- The sessions that texts and trees lead to. -/
inductive Session.Reachable : Session → Prop where
  | start (mode : Mode) : Session.Reachable { mode }
  | evaluate {session : Session} (before : Session.Reachable session) (source : String) :
      Session.Reachable (session.evaluate source).2
  | execute {session : Session} (before : Session.Reachable session) (nodes : List Node) :
      Session.Reachable (session.execute nodes).2

/-- A session has one scope, the global one. -/
theorem Session.Reachable.exists_global {session : Session} (reachable : session.Reachable) :
    ∃ global, session.scopes = [global] := by
  have ran : ∀ {scopes : Scopes} (nodes : List Node), (∃ global, scopes = [global]) →
      ∃ global, (Node.run none nodes scopes).scopes = [global] := by
    rintro _ nodes ⟨global, rfl⟩
    have growth := Node.grows_run none nodes (List.cons_ne_nil global [])
    exact List.length_eq_one_iff.1 growth.length_eq
  induction reachable with
  | start mode => exact ⟨∅, rfl⟩
  | evaluate _ source single =>
      rw [Session.evaluate]
      split
      · exact ran _ single
      · exact single
  | execute _ nodes single => exact ran nodes single

end TreeWalk
