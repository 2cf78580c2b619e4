import TreeWalk.Grammar.Program
import TreeWalk.Proofs.Evaluation.Correspondence

/-!
# What evaluation depends on

Evaluation sees of the scopes no more than the values of the names that it meets. How many
scopes there are, which of them holds a name and what else they hold makes no difference. Inside
a block that is not so: a name of the block goes with its scope. So the scopes that were opened
since are compared one by one, and those below them by looking up names.
-/

namespace TreeWalk

namespace Scopes

/-- Scopes in which the known names are the same. The innermost scopes, as many as the depth
says, have the same ones each. Below them only the values that are found are the same. -/
inductive AgreeOn (known : String → Prop) : Nat → Scopes → Scopes → Prop where
  | found {first second : Scopes} (firstNonempty : first ≠ []) (secondNonempty : second ≠ [])
      (same : ∀ name, known name → second.get? name = first.get? name) :
      AgreeOn known 0 first second
  | opened {depth : Nat} {scope other : Scope} {outer others : Scopes}
      (same : ∀ name, known name → other[name]? = scope[name]?)
      (outside : AgreeOn known depth outer others) :
      AgreeOn known (depth + 1) (scope :: outer) (other :: others)

namespace AgreeOn

variable {known : String → Prop} {depth : Nat} {first second : Scopes} {name : String}

/-- Where scopes agree, look-ups of known names find the same. -/
theorem get?_eq (agree : AgreeOn known depth first second) (present : known name) :
    second.get? name = first.get? name := by
  induction agree with
  | found _ _ same => exact same name present
  | opened same _ outside => rw [get?_cons, get?_cons, same name present, outside]

/-- The same insertion on both sides keeps a scope the same. -/
theorem insert_same {scope other : Scope} (declared : String) (value : Value)
    (same : ∀ name, known name → other[name]? = scope[name]?) (name : String)
    (present : known name) :
    (other.insert declared value)[name]? = (scope.insert declared value)[name]? := by
  rw [Std.ExtTreeMap.getElem?_insert, Std.ExtTreeMap.getElem?_insert, same name present]

/-- Scopes that agree still agree behind the same declaration, of whatever name. -/
theorem define (declared : String) (value : Value) (agree : AgreeOn known depth first second) :
    AgreeOn known depth (first.define declared value) (second.define declared value) := by
  cases agree with
  | found firstNonempty secondNonempty same =>
      refine .found ?_ ?_ fun name present => ?_
      · cases first <;> simp [Scopes.define]
      · cases second <;> simp [Scopes.define]
      · rw [get?_define, get?_define, same name present]
  | opened same outside => exact .opened (insert_same declared value same) outside

/-- A known name is assigned in both, and in the same one of the scopes that were opened. -/
theorem assign? (value : Value) (agree : AgreeOn known depth first second)
    (present : known name) :
    Option.Rel (AgreeOn known depth) (first.assign? name value) (second.assign? name value) := by
  induction agree with
  | @found first second _ _ same =>
      -- The name may be in different scopes of the two, but not in one of the two only.
      have either : (second.assign? name value).isSome = (first.assign? name value).isSome := by
        rw [isSome_assign?, isSome_assign?, same name present]
      cases here : first.assign? name value <;> cases there : second.assign? name value <;>
        rw [here, there] at either
      case none.none => exact .none
      case none.some | some.none => cases either
      case some.some after others =>
        have firstAfter := get?_of_assign? here
        have secondAfter := get?_of_assign? there
        refine .some (.found ?_ ?_ fun other known => ?_)
        · rintro rfl
          simpa using firstAfter name
        · rintro rfl
          simpa using secondAfter name
        · rw [firstAfter, secondAfter, same other known]
  | @opened _ scope other outer others same outside inductionHypothesis =>
      have either : name ∈ other ↔ name ∈ scope := by
        rw [Std.ExtTreeMap.mem_iff_isSome_getElem?, Std.ExtTreeMap.mem_iff_isSome_getElem?,
          same name present]
      rw [Scopes.assign?, Scopes.assign?]
      by_cases held : name ∈ scope
      · rw [if_pos held, if_pos (either.2 held)]
        exact .some (.opened (insert_same name value same) outside)
      · rw [if_neg held, if_neg (held ∘ either.1)]
        generalize outer.assign? name value = here at inductionHypothesis ⊢
        generalize others.assign? name value = there at inductionHypothesis ⊢
        cases inductionHypothesis with
        | none => exact .none
        | some kept => exact .some (.opened same kept)

/-- Scopes that agree still agree when one more is opened. -/
theorem push (agree : AgreeOn known depth first second) :
    AgreeOn known (depth + 1) first.push second.push :=
  .opened (fun _ _ => rfl) agree

/-- There are scopes on both sides of an agreement. -/
theorem ne_nil (agree : AgreeOn known depth first second) : first ≠ [] ∧ second ≠ [] := by
  cases agree with
  | found firstNonempty secondNonempty _ => exact ⟨firstNonempty, secondNonempty⟩
  | opened => exact ⟨List.cons_ne_nil _ _, List.cons_ne_nil _ _⟩

/-- Scopes that agree still agree when one that was opened is closed. -/
theorem pop (agree : AgreeOn known (depth + 1) first second) :
    AgreeOn known depth first.pop second.pop := by
  cases agree with
  | @opened _ scope other outer others _ outside =>
      -- There are scopes below, so closing takes the innermost one on both sides.
      obtain ⟨outerNonempty, othersNonempty⟩ := outside.ne_nil
      obtain ⟨below, lowest, rfl⟩ := List.exists_cons_of_ne_nil outerNonempty
      obtain ⟨otherBelow, otherLowest, rfl⟩ := List.exists_cons_of_ne_nil othersNonempty
      exact outside

end AgreeOn

/-- Scopes that agree on the known names correspond, without any renaming. -/
def agreement (known : String → Prop) : Correspondence id known where
  Holds := AgreeOn known
  get?_eq agree present := agree.get?_eq present
  define value agree _ := agree.define _ value
  assign? value agree present := agree.assign? value present
  push agree := agree.push
  pop agree := agree.pop

end Scopes

/-- Effects that correspond without any renaming have the same result. -/
theorem Effect.Corresponds.result_eq {α : Type} {related : Scopes → Scopes → Prop}
    {first second : Effect α} (effects : first.Corresponds id related second) :
    first.result = second.result := by
  rw [effects.result, RuntimeError.rename_id]
  cases first.result <;> rfl

/-- An action that corresponds to itself does the same from any two stacks of scopes in which the
known names are the same. -/
theorem Action.Corresponds.same_of_agree {α : Type} {known : String → Prop} {action : Action α}
    (corresponds : action.Corresponds (Scopes.agreement known) action) {first second : Scopes}
    (firstNonempty : first ≠ []) (secondNonempty : second ≠ [])
    (same : ∀ name, known name → first.get? name = second.get? name) :
    (action first).result = (action second).result ∧
      (action first).printed = (action second).printed ∧
      ∀ name, known name →
        (action first).scopes.get? name = (action second).scopes.get? name := by
  have agree : Scopes.AgreeOn known 0 first second :=
    .found firstNonempty secondNonempty fun name present => (same name present).symm
  have effects := corresponds 0 first second agree
  refine ⟨effects.result_eq, effects.printed.symm, fun name present => ?_⟩
  exact (effects.scopes.get?_eq present).symm

/-- Evaluation depends only on the names that occur in the nodes. From any two stacks of scopes
in which these names have the same values, nodes have the same result and print the same lines,
in the scope at hand as well as in one of their own. Behind them look-ups are the same for all
names for which they were, and so for those in the nodes. -/
theorem evaluation_depends_on_names {nodes : List Node} {first second : Scopes}
    (firstNonempty : first ≠ []) (secondNonempty : second ≠ [])
    (same : ∀ name ∈ Node.allNames nodes, first.get? name = second.get? name) :
    ∀ action ∈ [Node.evalSequence none nodes, Node.evalBlock nodes],
      (action first).result = (action second).result ∧
        (action first).printed = (action second).printed ∧
        ∀ name, first.get? name = second.get? name →
          (action first).scopes.get? name = (action second).scopes.get? name := by
  have sequence : (Node.evalSequence none nodes).Corresponds
      (Scopes.agreement fun name => first.get? name = second.get? name)
      (Node.evalSequence none (Node.renameAll id nodes)) :=
    Node.corresponds_evalSequence none nodes same
  rw [Node.renameAll_id] at sequence
  rw [List.forall_mem_cons, List.forall_mem_singleton]
  constructor
  · exact sequence.same_of_agree firstNonempty secondNonempty fun _ => id
  · exact sequence.enclosed.same_of_agree firstNonempty secondNonempty fun _ => id

/-- A block that shadows one name and assigns another, over one scope and over three; a negation
then fails. -/
theorem evaluation_depends_on_names_shadowing :
    let nodes :=
      (Grammar.parse .statement "\x7b var b = a; a = b + c; print a; \x7d -b;").produced
    let flat : Scopes :=
      [.ofList [("a", Value.string "x"), ("b", Value.nil), ("c", Value.string "y")]]
    let nested : Scopes := [.ofList [("d", Value.nil)],
      .ofList [("a", Value.string "x"), ("c", Value.string "y")],
      .ofList [("a", Value.nil), ("b", Value.nil)]]
    (∀ name ∈ Node.allNames nodes, flat.get? name = nested.get? name) ∧
      (Node.evalSequence none nodes nested).printed = ["xy"] ∧
      (Node.evalSequence none nodes nested).scopes.get? "a" = some (.string "xy") := by
  intro nodes flat nested
  have same : ∀ name ∈ Node.allNames nodes, flat.get? name = nested.get? name := by
    decide +kernel
  obtain ⟨_, lines, found⟩ := evaluation_depends_on_names (by simp [flat]) (by simp [nested])
    same (Node.evalSequence none nodes) List.mem_cons_self
  refine ⟨same, ?_, ?_⟩
  · rw [← lines]
    decide +kernel
  · rw [← found "a" (by decide +kernel)]
    decide +kernel

end TreeWalk
