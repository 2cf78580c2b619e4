import Mathlib.Logic.Equiv.Basic
import TreeWalk.Proofs.Evaluation.Correspondence
import TreeWalk.Session

/-!
# Renaming variables

Names are compared with each other and with nothing else. So a program in which every variable
has another name, different ones for different variables, does over renamed scopes what the
program does over the given ones.
-/

namespace TreeWalk

variable (naming : String → String)

/-- The scope with every variable under its other name. -/
def Scope.rename (scope : Scope) : Scope :=
  .ofList (scope.toList.map fun held => (naming held.1, held.2))

/-- The scopes with every variable under its other name. -/
def Scopes.rename (scopes : Scopes) : Scopes :=
  scopes.map (Scope.rename naming)

/-- The session with every variable under its other name. -/
def Session.rename (session : Session) : Session :=
  { session with scopes := session.scopes.rename naming }

/-- The error about the other name, if it is about a variable at run time. -/
def Error.rename : Error → Error
  | runtime error => runtime (error.rename naming)
  | error => error

/-- The response with the names of undefined variables renamed. -/
def Response.rename (response : Response) : Response :=
  { response with errors := response.errors.map (Error.rename naming) }

variable {naming}

namespace Scope

variable (injective : Function.Injective naming) (scope : Scope) (name : String)

/-- A renamed scope has no variables but renamed ones. -/
theorem getElem?_rename_eq_none {name : String} (absent : ∀ other ∈ scope, naming other ≠ name) :
    (scope.rename naming)[name]? = none := by
  refine Std.ExtTreeMap.getElem?_ofList_of_contains_eq_false ?_
  rw [List.contains_eq_mem, decide_eq_false_iff_not, List.map_map]
  intro present
  obtain ⟨⟨other, value⟩, held, same⟩ := List.mem_map.1 present
  have found := Std.ExtTreeMap.mem_toList_iff_getElem?_eq_some.1 held
  refine absent other ?_ same
  rw [Std.ExtTreeMap.mem_iff_isSome_getElem?, found, Option.isSome_some]

include injective in
/-- A renamed scope has under the other name what the scope has under the first. -/
theorem getElem?_rename : (scope.rename naming)[naming name]? = scope[name]? := by
  have distinct : (scope.toList.map fun held => (naming held.1, held.2)).Pairwise
      fun first second => ¬ compare first.1 second.1 = .eq := by
    rw [List.pairwise_map]
    refine scope.distinct_keys_toList.imp fun different same => different ?_
    rw [Std.LawfulEqCmp.compare_eq_iff_eq] at same ⊢
    exact injective same
  cases found : scope[name]? with
  | some value =>
      have present := Std.ExtTreeMap.mem_toList_iff_getElem?_eq_some.2 found
      exact Std.ExtTreeMap.getElem?_ofList_of_mem Std.ReflCmp.compare_self distinct
        (List.mem_map_of_mem present)
  | none =>
      refine getElem?_rename_eq_none scope fun other held same => ?_
      rw [injective same, Std.ExtTreeMap.mem_iff_isSome_getElem?, found] at held
      cases held

include injective in
/-- A renamed scope has the other name of a variable exactly where the scope has the variable. -/
theorem mem_rename : naming name ∈ scope.rename naming ↔ name ∈ scope := by
  rw [Std.ExtTreeMap.mem_iff_isSome_getElem?, Std.ExtTreeMap.mem_iff_isSome_getElem?,
    getElem?_rename injective]

include injective in
/-- Renaming and inserting a variable change places. -/
theorem rename_insert (value : Value) :
    Scope.rename naming (scope.insert name value) =
      (scope.rename naming).insert (naming name) value := by
  apply Std.ExtTreeMap.ext_getElem?
  intro other
  rw [Std.ExtTreeMap.getElem?_insert]
  by_cases image : ∃ first, naming first = other
  · obtain ⟨first, rfl⟩ := image
    rw [getElem?_rename injective, getElem?_rename injective, Std.ExtTreeMap.getElem?_insert]
    simp only [Std.LawfulEqCmp.compare_eq_iff_eq, injective.eq_iff]
  · -- No variable is renamed to this name, so neither side has it.
    have strange : ∀ first, naming first ≠ other := not_exists.1 image
    have different : ¬ compare (naming name) other = .eq := by
      rw [Std.LawfulEqCmp.compare_eq_iff_eq]
      exact strange name
    rw [getElem?_rename_eq_none _ fun first _ => strange first, if_neg different,
      getElem?_rename_eq_none _ fun first _ => strange first]

/-- In an empty scope there is nothing to rename. -/
theorem rename_empty : Scope.rename naming ∅ = ∅ := by
  apply Std.ExtTreeMap.ext_getElem?
  intro name
  simp [rename]

end Scope

namespace Scopes

variable (injective : Function.Injective naming) (scopes : Scopes) (name : String)

include injective in
/-- A look-up of the other name in renamed scopes finds what that of the name finds. -/
theorem get?_rename : (scopes.rename naming).get? (naming name) = scopes.get? name := by
  induction scopes with
  | nil => rfl
  | cons scope outer inductionHypothesis =>
      rw [rename] at inductionHypothesis ⊢
      rw [List.map_cons, get?_cons, get?_cons, inductionHypothesis,
        Scope.getElem?_rename injective]

include injective in
/-- To declare and then rename is to rename and then declare the other name. -/
theorem rename_define (value : Value) :
    Scopes.rename naming (scopes.define name value) =
      (scopes.rename naming).define (naming name) value := by
  cases scopes with
  | nil =>
      change [Scope.rename naming (Std.ExtTreeMap.insert ∅ name value)] = _
      rw [Scope.rename_insert injective, Scope.rename_empty]
      rfl
  | cons scope outer =>
      change Scope.rename naming (scope.insert name value) :: _ = _
      rw [Scope.rename_insert injective]
      rfl

include injective in
/-- To assign and then rename is to rename and then assign to the other name. -/
theorem rename_assign? (value : Value) :
    (scopes.rename naming).assign? (naming name) value =
      (scopes.assign? name value).map (Scopes.rename naming) := by
  induction scopes with
  | nil => rfl
  | cons scope outer inductionHypothesis =>
      rw [rename] at inductionHypothesis ⊢
      rw [List.map_cons, assign?, assign?, inductionHypothesis]
      by_cases held : name ∈ scope
      · rw [if_pos held, if_pos ((Scope.mem_rename injective scope name).2 held),
          ← Scope.rename_insert injective]
        rfl
      · rw [if_neg held, if_neg (held ∘ (Scope.mem_rename injective scope name).1),
          Option.map_map, Option.map_map]
        rfl

/-- To open a scope and then rename is to rename and then open one. -/
theorem rename_push : Scopes.rename naming scopes.push = (scopes.rename naming).push := by
  rw [push, rename, List.map_cons, Scope.rename_empty]
  rfl

/-- To close a scope and then rename is to rename and then close it. -/
theorem rename_pop : Scopes.rename naming scopes.pop = (scopes.rename naming).pop := by
  rcases scopes with _ | ⟨scope, _ | ⟨outer, others⟩⟩ <;> rfl

/-- Renamed scopes correspond to the scopes, whatever the names. -/
def renamed (injective : Function.Injective naming) :
    Correspondence naming fun _ => True where
  Holds _ first second := second = first.rename naming
  get?_eq := by
    rintro _ first _ name rfl -
    exact get?_rename injective first name
  define := by
    rintro _ first _ name value rfl -
    exact (rename_define injective first name value).symm
  assign? := by
    rintro _ first _ name value rfl -
    rw [rename_assign? injective first name value]
    cases first.assign? name value with
    | none => exact .none
    | some after => exact .some rfl
  push := by
    rintro _ first _ rfl
    exact (rename_push first).symm
  pop := by
    rintro _ first _ rfl
    exact (rename_pop first).symm

end Scopes

/-- The run with the name of an undefined variable renamed, and the scopes too. -/
def Run.rename (naming : String → String) (run : Run) : Run :=
  { run with
    error := run.error.map (RuntimeError.rename naming)
    scopes := run.scopes.rename naming }

/-- Renamed nodes run over renamed scopes as the nodes run over the scopes. -/
theorem Node.run_rename (injective : Function.Injective naming) (last : Option Value)
    (nodes : List Node) (scopes : Scopes) :
    Node.run last (nodes.map (Node.rename naming)) (scopes.rename naming) =
      (Node.run last nodes scopes).rename naming := by
  induction nodes generalizing last scopes with
  | nil => rfl
  | cons node nodes inductionHypothesis =>
      have step : Action.Corresponds (Scopes.renamed injective) node.eval
          (node.rename naming).eval := node.corresponds_eval fun _ _ => trivial
      obtain ⟨results, lines, related⟩ := step 0 scopes (scopes.rename naming) rfl
      rw [List.map_cons, Node.run, Node.run]
      generalize node.eval scopes = effect at results lines related ⊢
      generalize (node.rename naming).eval (scopes.rename naming) = other
        at results lines related ⊢
      obtain ⟨result, middle, printed⟩ := effect
      obtain ⟨otherResult, otherMiddle, otherPrinted⟩ := other
      obtain rfl : otherResult = result.mapError (RuntimeError.rename naming) := results
      obtain rfl : otherPrinted = printed := lines
      obtain rfl : otherMiddle = middle.rename naming := related
      cases result with
      | error error => rfl
      | ok value =>
          dsimp only [Except.mapError]
          rw [inductionHypothesis]
          rfl

/-- Renaming the variables of a program changes nothing. If different names stay different, the
renamed nodes in the renamed session have the same value and print the same lines. The error is
the same but for the name of an undefined variable, and the scopes behind are the renamed ones. -/
theorem renaming_keeps_meaning (injective : Function.Injective naming) (session : Session)
    (nodes : List Node) :
    (session.rename naming).execute (nodes.map (Node.rename naming)) =
      ((session.execute nodes).1.rename naming, (session.execute nodes).2.rename naming) := by
  have run := Node.run_rename injective none nodes session.scopes
  rw [Session.execute, Session.rename, run]
  simp only [Session.execute, Response.rename, Run.rename]
  cases (Node.run none nodes session.scopes).error <;> rfl

/-- Two names change places: one is shadowed in a block, and the other is undefined behind it. -/
theorem renaming_keeps_meaning_swap :
    let naming := Equiv.swap "a" "b"
    let session : Session :=
      { mode := .statement, scopes := [.ofList [("a", Value.string "x")]] }
    let nodes :=
      (Grammar.parse .statement "\x7b var b = a; a = b + b; print a; \x7d b;").produced
    Function.Injective naming ∧
      ((session.rename naming).execute (nodes.map (Node.rename naming))).1.printed = ["xx"] ∧
      ((session.rename naming).execute (nodes.map (Node.rename naming))).1.errors =
        [.runtime (.undefinedVariable "a" ⟨1, 35, 1⟩)] := by
  intro naming session nodes
  have injective : Function.Injective naming := naming.injective
  refine ⟨injective, ?_, ?_⟩
  · rw [renaming_keeps_meaning injective session nodes]
    decide +kernel
  · rw [renaming_keeps_meaning injective session nodes]
    decide +kernel

end TreeWalk
