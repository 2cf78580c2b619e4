import Std.Data.ExtTreeMap
import TreeWalk.Value

/-!
# Scopes

Variables live in a stack of scopes, the innermost first and the global one last. Two
scopes that hold the same variables are equal, however they came to hold them.
-/

namespace TreeWalk

/-- The variables of one scope. -/
abbrev Scope := Std.ExtTreeMap String Value

/-- The scopes in force, the innermost first. -/
abbrev Scopes := List Scope

namespace Scopes

/-- The scopes before anything runs: an empty global scope. -/
def initial : Scopes :=
  [∅]

/-- The value of a variable in the innermost scope that has it. -/
def get? (scopes : Scopes) (name : String) : Option Value :=
  scopes.findSome? fun scope => scope[name]?

/-- Opens an empty scope. -/
def push (scopes : Scopes) : Scopes :=
  ∅ :: scopes

/-- Closes the innermost scope; the last one stays. -/
def pop : Scopes → Scopes
  | _ :: outer :: scopes => outer :: scopes
  | scopes => scopes

/-- Declares a variable in the innermost scope, in a first one where there is none. -/
def define (scopes : Scopes) (name : String) (value : Value) : Scopes :=
  match scopes with
  | [] => [(∅ : Scope).insert name value]
  | scope :: outer => scope.insert name value :: outer

/-- Gives a value to a variable in the innermost scope that has it. -/
def assign? (scopes : Scopes) (name : String) (value : Value) : Option Scopes :=
  match scopes with
  | [] => none
  | scope :: outer =>
      if name ∈ scope then some (scope.insert name value :: outer)
      else (assign? outer name value).map (scope :: ·)

@[simp] theorem get?_nil (name : String) : get? [] name = none := rfl

/-- The innermost scope is asked first. -/
theorem get?_cons (scope : Scope) (outer : Scopes) (name : String) :
    get? (scope :: outer) name = scope[name]?.or (get? outer name) := by
  cases found : scope[name]? <;> simp [get?, found]

/-- An empty scope hides nothing. -/
@[simp] theorem get?_push (scopes : Scopes) (name : String) :
    scopes.push.get? name = scopes.get? name := by
  simp [push, get?_cons]

/-- A declared variable has its value, and every other one keeps its own. -/
theorem get?_define (scopes : Scopes) (declared name : String) (value : Value) :
    (scopes.define declared value).get? name =
      if declared = name then some value else scopes.get? name := by
  cases scopes <;>
    by_cases same : declared = name <;>
    simp [define, get?_cons, Std.ExtTreeMap.getElem?_insert, same]

/-- An assignment finds a scope exactly where a look-up finds a value. -/
theorem isSome_assign? (scopes : Scopes) (name : String) (value : Value) :
    (scopes.assign? name value).isSome = (scopes.get? name).isSome := by
  induction scopes with
  | nil => rfl
  | cons scope outer inductionHypothesis =>
      by_cases held : name ∈ scope
      · simp [assign?, get?_cons, held]
      · simp [assign?, get?_cons, held, inductionHypothesis]

/-- An assigned variable has its value, and every other one keeps its own. -/
theorem get?_of_assign? {scopes after : Scopes} {assigned : String} {value : Value}
    (found : scopes.assign? assigned value = some after) (name : String) :
    after.get? name = if assigned = name then some value else scopes.get? name := by
  induction scopes generalizing after with
  | nil => cases found
  | cons scope outer inductionHypothesis =>
      by_cases held : assigned ∈ scope
      · rw [assign?, if_pos held, Option.some.injEq] at found
        rw [← found]
        by_cases same : assigned = name <;>
          simp [get?_cons, Std.ExtTreeMap.getElem?_insert, same]
      · rw [assign?, if_neg held, Option.map_eq_some_iff] at found
        obtain ⟨others, assignedOutside, rfl⟩ := found
        rw [get?_cons, get?_cons, inductionHypothesis assignedOutside]
        by_cases same : assigned = name
        · rw [← same, Std.ExtTreeMap.getElem?_eq_none held, if_pos rfl, if_pos rfl,
            Option.none_or]
        · rw [if_neg same, if_neg same]

end Scopes

end TreeWalk
