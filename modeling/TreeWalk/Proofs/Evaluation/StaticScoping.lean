import TreeWalk.Proofs.Evaluation.Growth
import TreeWalk.Proofs.Evaluation.Resolved
import TreeWalk.Proofs.Grammar.Program

/-!
# Scoping is static

Evaluating a program that was read is evaluating its resolved form. The pass that resolves
it keeps track of exactly the names that the scopes hold at run time, `Names.Holds`, and
each action carries that over to the names behind it, `Action.Agrees`.
-/

namespace TreeWalk

namespace Names

/-- The scopes hold variables of exactly these names. -/
def Holds (names : Names) (scopes : Scopes) : Prop :=
  List.Forall₂ (fun held (scope : Scope) => ∀ name, name ∈ held ↔ name ∈ scope) names scopes

variable {names : Names} {scopes : Scopes} {name : String}

/-- A scope that is opened holds no names. -/
theorem Holds.push (holds : names.Holds scopes) : names.push.Holds scopes.push :=
  .cons (by simp) holds

/-- A declaration adds its name on both sides. -/
theorem Holds.declare (holds : names.Holds scopes) (name : String) (value : Value) :
    (names.declare name).Holds (scopes.define name value) := by
  cases holds with
  | nil =>
      refine .cons (fun other => ?_) .nil
      simp [eq_comm (a := name)]
  | cons here others =>
      refine .cons (fun other => ?_) others
      simp [here other, eq_comm (a := name)]

/-- Only names of variables matter. -/
theorem Holds.of_sameNames {after : Scopes} (holds : names.Holds scopes)
    (same : List.Forall₂ Scope.SameNames scopes after) : names.Holds after := by
  induction holds generalizing after with
  | nil =>
      cases same
      exact .nil
  | cons here _ inductionHypothesis =>
      cases same with
      | cons next others =>
          exact .cons (fun name => (here name).trans (next name)) (inductionHypothesis others)

/-- A scope of the names is counted below their number. -/
theorem lt_of_slot? {index : Nat} (found : names.slot? name = some index) :
    index < names.length := by
  induction names with
  | nil => cases found
  | cons held outer inductionHypothesis =>
      rw [slot?] at found
      split at found
      next =>
        cases found
        exact Nat.lt_succ_self _
      next => exact Nat.lt_succ_of_lt (inductionHypothesis found)

/-- A resolved name has the value that a search finds. -/
theorem Holds.readAt {index : Nat} (holds : names.Holds scopes)
    (found : names.slot? name = some index) :
    ∃ value, scopes.get? name = some value ∧ scopes.readAt index name = some value := by
  induction holds with
  | nil => cases found
  | @cons held scope outer others here rest inductionHypothesis =>
      have depth : outer.length = others.length := rest.length_eq
      rw [slot?] at found
      split at found
      next mentioned =>
        cases found
        have member := (here name).1 mentioned
        refine ⟨scope[name], ?_, ?_⟩
        · simp [Scopes.get?_cons, member]
        · simp [Scopes.readAt, depth, member]
      next absent =>
        obtain ⟨value, searched, direct⟩ := inductionHypothesis found
        have deeper : index ≠ others.length := by
          have := lt_of_slot? found
          omega
        have missing : name ∉ scope := fun member => absent ((here name).2 member)
        refine ⟨value, ?_, ?_⟩
        · simp [Scopes.get?_cons, missing, searched]
        · rw [Scopes.readAt, if_neg deeper]
          exact direct

/-- A search for an unresolved name finds nothing. -/
theorem Holds.get?_unresolved (holds : names.Holds scopes) (unresolved : names.slot? name = none) :
    scopes.get? name = none := by
  induction holds with
  | nil => rfl
  | cons here _ inductionHypothesis =>
      rw [slot?] at unresolved
      split at unresolved
      next => cases unresolved
      next absent =>
        have missing : name ∉ _ := fun member => absent ((here name).2 member)
        simp [Scopes.get?_cons, missing, inductionHypothesis unresolved]

/-- An assignment to a resolved name is one to its scope. -/
theorem Holds.writeAt {index : Nat} (holds : names.Holds scopes)
    (found : names.slot? name = some index) (value : Value) :
    scopes.assign? name value = some (scopes.writeAt index name value) := by
  induction holds with
  | nil => cases found
  | @cons held scope outer others here rest inductionHypothesis =>
      have depth : outer.length = others.length := rest.length_eq
      rw [slot?] at found
      split at found
      next mentioned =>
        cases found
        have member := (here name).1 mentioned
        simp [Scopes.assign?, Scopes.writeAt, depth, member]
      next absent =>
        have deeper : index ≠ others.length := by
          have := lt_of_slot? found
          omega
        have missing : name ∉ scope := fun member => absent ((here name).2 member)
        rw [Scopes.assign?, if_neg missing, inductionHypothesis found, Scopes.writeAt,
          if_neg deeper]
        rfl

/-- An assignment to an unresolved name finds no scope. -/
theorem Holds.assign?_unresolved (holds : names.Holds scopes)
    (unresolved : names.slot? name = none) (value : Value) : scopes.assign? name value = none := by
  have searched := Scopes.isSome_assign? scopes name value
  rw [holds.get?_unresolved unresolved] at searched
  exact Option.isNone_iff_eq_none.1 (by simpa using searched)

end Names

namespace Action

variable {α β : Type} {names middle after : Names}

/-- From scopes of the names both actions do the same, and where they succeed, the scopes
are of the names behind them. -/
def Agrees (names after : Names) (direct searching : Action α) : Prop :=
  ∀ scopes, names.Holds scopes → direct scopes = searching scopes ∧
    ∀ value, (searching scopes).result = .ok value → after.Holds (searching scopes).scopes

/-- An action that leaves the scopes alone. -/
theorem agrees_of_scopes_eq {action : Action α}
    (still : ∀ scopes : Scopes, (action scopes).scopes = scopes) :
    Agrees names names action action := by
  intro scopes holds
  refine ⟨rfl, fun _ _ => ?_⟩
  rw [still]
  exact holds

/-- Returning a value does the same on both sides and leaves the names as they are. -/
theorem agrees_pure (value : α) : Agrees names names (pure value) (pure value) :=
  agrees_of_scopes_eq fun _ => rfl

/-- A result is the same on both sides and leaves the names as they are. -/
theorem agrees_ofExcept (result : Except RuntimeError α) :
    Agrees names names (ofExcept result) (ofExcept result) :=
  agrees_of_scopes_eq fun _ => rfl

/-- Printing does the same on both sides and leaves the names as they are. -/
theorem agrees_print (line : String) : Agrees names names (print line) (print line) :=
  agrees_of_scopes_eq fun _ => rfl

/-- A declaration does the same on both sides and adds its name. -/
theorem agrees_define (name : String) (value : Value) :
    Agrees names (names.declare name) (define name value) (define name value) :=
  fun _ holds => ⟨rfl, fun _ _ => holds.declare name value⟩

/-- Reading a resolved name is looking it up. -/
theorem agrees_readAt (name : Identifier) :
    Agrees names names (readAt (names.slot? name.name) name) (lookup name.name name.span) := by
  intro scopes holds
  cases found : names.slot? name.name with
  | some index =>
      obtain ⟨value, searched, direct⟩ := holds.readAt found
      have looked : lookup name.name name.span scopes = ⟨.ok value, scopes, []⟩ := by
        rw [lookup, searched]
      rw [looked]
      refine ⟨?_, fun _ _ => holds⟩
      simp only [readAt, direct, Option.getD_some]
  | none =>
      have looked : lookup name.name name.span scopes =
          ⟨.error (.undefinedVariable name.name name.span), scopes, []⟩ := by
        rw [lookup, holds.get?_unresolved found]
      rw [looked]
      exact ⟨rfl, nofun⟩

/-- Writing a resolved name is assigning to it. -/
theorem agrees_writeAt (name : Identifier) (value : Value) :
    Agrees names names (writeAt (names.slot? name.name) name value) (assign name value) := by
  intro scopes holds
  cases found : names.slot? name.name with
  | some index =>
      have assigned := holds.writeAt found value
      have done : assign name value scopes =
          ⟨.ok (), scopes.writeAt index name.name value, []⟩ := by
        rw [assign, assigned]
      rw [done]
      exact ⟨rfl, fun _ _ => holds.of_sameNames (Scopes.sameNames_assign assigned)⟩
  | none =>
      have done : assign name value scopes =
          ⟨.error (.undefinedVariable name.name name.span), scopes, []⟩ := by
        rw [assign, holds.assign?_unresolved found]
      rw [done]
      exact ⟨rfl, nofun⟩

/-- Sequences agree step by step. -/
theorem Agrees.bind {direct searching : Action α} {next other : α → Action β}
    (first : Agrees names middle direct searching)
    (second : ∀ value, Agrees middle after (next value) (other value)) :
    Agrees names after (direct >>= next) (searching >>= other) := by
  intro scopes holds
  obtain ⟨same, carried⟩ := first scopes holds
  cases outcome : (searching scopes).result with
  | ok value =>
      obtain ⟨sameNext, carriedNext⟩ := second value _ (carried value outcome)
      rw [bind_of_ok outcome, bind_of_ok (by rw [same]; exact outcome), same, sameNext]
      exact ⟨rfl, carriedNext⟩
  | error error =>
      rw [bind_of_error outcome, bind_of_error (by rw [same]; exact outcome), same]
      exact ⟨rfl, nofun⟩

/-- A scope of its own leaves the names outside as they are. -/
theorem Agrees.enclosed {held : List String} {direct searching : Action α} (nonempty : names ≠ [])
    (inside : Agrees names.push (held :: names) direct searching) :
    Agrees names names direct.enclosed searching.enclosed := by
  intro scopes holds
  obtain ⟨same, carried⟩ := inside scopes.push holds.push
  refine ⟨?_, fun value success => ?_⟩
  · rw [Action.enclosed, Action.enclosed, same]
  · have inner := carried value success
    change names.Holds (searching scopes.push).scopes.pop
    generalize (searching scopes.push).scopes = left at inner ⊢
    cases inner with
    | cons _ others => exact Scopes.forall₂_pop others nonempty

end Action

/-- A token that is no name is evaluated by itself. -/
theorem Token.agrees_literal (names : Names) (token : Token)
    (nameless : ∀ name, token.kind ≠ .identifier name) :
    Action.Agrees names names (ResolvedExpr.literal token.kind token.span).eval token.eval := by
  rw [ResolvedExpr.eval, Token.eval]
  cases Value.ofKind? token.kind with
  | some value => exact Action.agrees_pure value
  | none =>
      cases kind : token.kind with
      | identifier name => cases nameless name kind
      | _ => exact Action.agrees_ofExcept _

/-- Expressions read and write what their names are resolved to. -/
theorem Expr.agrees_resolve (names : Names) (value : Expr) :
    Action.Agrees names names (value.resolve names).eval value.eval := by
  induction value with
  | terminal token =>
      obtain ⟨kind, span⟩ := token
      cases kind with
      | identifier name => exact Action.agrees_readAt ⟨name, span⟩
      | _ => exact Token.agrees_literal names ⟨_, span⟩ nofun
  | group inner _ inside => exact inside
  | unary _ _ _ behind => exact behind.bind fun _ => Action.agrees_ofExcept _
  | binary _ _ _ _ before behind =>
      exact before.bind fun _ => behind.bind fun _ => Action.agrees_ofExcept _
  | logical _ operator _ _ before behind =>
      refine before.bind fun value => ?_
      split
      · exact Action.agrees_pure _
      · exact behind
  | assign target _ _ behind =>
      exact behind.bind fun value => (Action.agrees_writeAt target value).bind fun _ =>
        Action.agrees_pure _

/-- A condition does what its resolved form does. -/
theorem Expr.agrees_evalCondition (names : Names) (condition : Expr) (span : Span) :
    Action.Agrees names names ((condition.resolve names).evalCondition span)
      (condition.evalCondition span) := by
  refine (condition.agrees_resolve names).bind fun value => ?_
  cases value with
  | boolean holds => exact Action.agrees_pure holds
  | _ => exact Action.agrees_ofExcept _

namespace Node

/-- Only a variable declaration brings a name into force. -/
theorem names_resolve (names : Names) (node : Node) (statement : node.isStatement) :
    (node.resolve names).2 = names := by
  cases node with
  | variableDeclaration => cases statement
  | conditional _ _ elseBranch => cases elseBranch <;> rfl
  | _ => rfl

/-- The innermost scope gains the name that the node declares, and the others none. -/
theorem exists_names_resolve (node : Node) (held : List String) (outer : Names) :
    ∃ gained, (node.resolve (held :: outer)).2 = gained :: outer ∧
      ∀ name, name ∈ gained ↔ name ∈ held ∨ node.declared? = some name := by
  cases node with
  | variableDeclaration name =>
      exact ⟨name.name :: held, rfl, by simp [declared?, or_comm, eq_comm]⟩
  | conditional _ _ elseBranch => cases elseBranch <;> exact ⟨held, rfl, by simp [declared?]⟩
  | _ => exact ⟨held, rfl, by simp [declared?]⟩

/-- The innermost scope gains the names that the nodes declare. -/
theorem exists_names_resolveAll (nodes : List Node) (held : List String) (outer : Names) :
    ∃ gained, (Node.resolveAll (held :: outer) nodes).2 = gained :: outer ∧
      ∀ name, name ∈ gained ↔ name ∈ held ∨ name ∈ nodes.filterMap declared? := by
  induction nodes generalizing held with
  | nil => exact ⟨held, rfl, by simp⟩
  | cons node nodes inductionHypothesis =>
      obtain ⟨middle, same, here⟩ := node.exists_names_resolve held outer
      obtain ⟨gained, others, behind⟩ := inductionHypothesis middle
      refine ⟨gained, ?_, fun name => ?_⟩
      · rw [Node.resolveAll, same]
        exact others
      · simp only [behind, here, or_assoc, List.mem_filterMap, List.exists_mem_cons_iff]

/-- Where a node is resolved in some scope, there is one behind it. -/
theorem names_resolve_ne_nil {names : Names} (nonempty : names ≠ []) (node : Node) :
    (node.resolve names).2 ≠ [] := by
  cases names with
  | nil => cases nonempty rfl
  | cons held outer =>
      obtain ⟨gained, same, _⟩ := node.exists_names_resolve held outer
      rw [same]
      exact List.cons_ne_nil _ _

mutual

/-- Evaluating a node is evaluating its resolved form. -/
theorem agrees_resolve (names : Names) (nonempty : names ≠ []) : (node : Node) →
    node.WellShaped →
      Action.Agrees names (node.resolve names).2 (node.resolve names).1.eval node.eval
  | .expression _, shaped => nomatch shaped
  | .expressionStatement value _, _ =>
      (value.agrees_resolve names).bind fun _ => Action.agrees_pure _
  | .print value _, _ =>
      (value.agrees_resolve names).bind fun _ => (Action.agrees_print _).bind fun _ =>
        Action.agrees_pure _
  | .variableDeclaration name none _, _ =>
      (Action.agrees_define name.name .nil).bind fun _ => Action.agrees_pure _
  | .variableDeclaration name (some value) _, _ =>
      (value.agrees_resolve names).bind fun value =>
        (Action.agrees_define name.name value).bind fun _ => Action.agrees_pure _
  | .block body _, shaped => by
      obtain ⟨gained, same, _⟩ := Node.exists_names_resolveAll body [] names
      have inside := agrees_resolveAll names.push (List.cons_ne_nil _ _) none body shaped.2
      rw [Names.push, same] at inside
      exact inside.enclosed nonempty
  | .conditional condition thenBranch none span, shaped => by
      obtain ⟨_, shapedBranch, statement, _⟩ := shaped
      have branch := agrees_resolve names nonempty thenBranch shapedBranch
      -- A branch is a statement and declares nothing, so the names behind it are those in front.
      rw [thenBranch.names_resolve names statement] at branch
      refine (condition.agrees_evalCondition names span).bind fun holds => ?_
      split
      · exact branch
      · exact Action.agrees_pure _
  | .conditional condition thenBranch (some elseBranch) span, shaped => by
      obtain ⟨_, ⟨shapedBranch, statement, _⟩, _, shapedElse, statementElse⟩ := shaped
      have branch := agrees_resolve names nonempty thenBranch shapedBranch
      have other := agrees_resolve names nonempty elseBranch shapedElse
      rw [thenBranch.names_resolve names statement] at branch
      rw [elseBranch.names_resolve names statementElse] at other
      refine (condition.agrees_evalCondition names span).bind fun holds => ?_
      split
      · exact branch
      · exact other
  | .whileLoop _ _ _, _ => Action.agrees_ofExcept _
  | .forLoop _ _ _ _ _, _ => Action.agrees_ofExcept _
  | .returned _ _, _ => Action.agrees_ofExcept _
  | .classDeclaration _ _ _ _, _ => Action.agrees_ofExcept _
  | .functionDeclaration _, _ => Action.agrees_ofExcept _

/-- Evaluating nodes in turn is evaluating their resolved forms. -/
theorem agrees_resolveAll (names : Names) (nonempty : names ≠ []) (last : Option Value) :
    (nodes : List Node) → Node.AllWellShaped nodes →
      Action.Agrees names (Node.resolveAll names nodes).2
        (ResolvedNode.evalSequence last (Node.resolveAll names nodes).1)
        (Node.evalSequence last nodes)
  | [], _ => Action.agrees_pure last
  | node :: nodes, shaped =>
      (agrees_resolve names nonempty node shaped.1).bind fun value =>
        agrees_resolveAll _ (node.names_resolve_ne_nil nonempty) value nodes shaped.2

end

/-- Running nodes is running their resolved forms, and without an error the names in force
behind them are those of the scopes. -/
theorem run_resolveAll {names : Names} {scopes : Scopes} (nonempty : names ≠ [])
    (holds : names.Holds scopes) (last : Option Value) (nodes : List Node)
    (shaped : Node.AllWellShaped nodes) :
    ResolvedNode.run last (Node.resolveAll names nodes).1 scopes = Node.run last nodes scopes ∧
      ((Node.run last nodes scopes).error = none →
        (Node.resolveAll names nodes).2.Holds (Node.run last nodes scopes).scopes) := by
  induction nodes generalizing names scopes last with
  | nil => exact ⟨rfl, fun _ => holds⟩
  | cons node nodes inductionHypothesis =>
      obtain ⟨same, carried⟩ := node.agrees_resolve names nonempty shaped.1 scopes holds
      rw [Node.resolveAll, ResolvedNode.run, Node.run, same]
      generalize node.eval scopes = effect at carried ⊢
      rcases effect with ⟨error | value, middle, printed⟩
      case error => exact ⟨rfl, fun quiet => by cases quiet⟩
      case ok =>
        obtain ⟨sameOthers, holdsOthers⟩ := inductionHypothesis
          (node.names_resolve_ne_nil nonempty) (carried value rfl) value shaped.2
        refine ⟨?_, holdsOthers⟩
        simp only [sameOthers]

end Node

/-- Whatever a source is read as is well-shaped. -/
theorem Grammar.allWellShaped_parse (source : String) :
    Node.AllWellShaped (parse .statement source).produced := by
  rw [parse]
  split
  · exact (stretches_nodes .statement _ _).allWellShaped
  · trivial

/-- Scoping is static. A source that is read without errors does in a session what its
resolved form does, and without a run-time error the global scope gains exactly the names
that the source declares outside of blocks. -/
theorem scoping_is_static {session : Session} (reachable : session.Reachable)
    (mode : session.mode = .statement) (source : String)
    (clean : (Grammar.parse .statement source).errors = []) :
    ∃ global : Scope, session.scopes = [global] ∧
      session.evaluate source = session.executeResolved
        (Node.resolveAll [global.keys] (Grammar.parse .statement source).produced).1 ∧
      ((session.evaluate source).1.errors = [] →
        ∃ after : Scope, (session.evaluate source).2.scopes = [after] ∧
          ∀ name, name ∈ after ↔ name ∈ global ∨
            name ∈ (Grammar.parse .statement source).produced.filterMap Node.declared?) := by
  obtain ⟨global, single⟩ := reachable.exists_global
  have holds : Names.Holds [global.keys] session.scopes := by
    rw [single]
    exact .cons (fun name => Std.ExtTreeMap.mem_keys) .nil
  obtain ⟨same, carried⟩ := Node.run_resolveAll (List.cons_ne_nil _ _) holds none
    (Grammar.parse .statement source).produced (Grammar.allWellShaped_parse source)
  have executed : session.evaluate source =
      session.execute (Grammar.parse .statement source).produced := by
    rw [Session.evaluate, mode]
    simp [clean]
  refine ⟨global, single, ?_, fun quiet => ?_⟩
  · rw [executed, Session.execute, Session.executeResolved, same]
  · rw [executed] at quiet ⊢
    have finished : (Node.run none (Grammar.parse .statement source).produced
        session.scopes).error = none := by
      simpa [Session.execute] using quiet
    have inForce := carried finished
    obtain ⟨gained, names, declared⟩ :=
      Node.exists_names_resolveAll (Grammar.parse .statement source).produced global.keys []
    rw [names] at inForce
    change ∃ after, (Node.run none (Grammar.parse .statement source).produced
      session.scopes).scopes = [after] ∧ _
    -- The run leaves scopes of the names that resolving ends with: a single one, as it began.
    generalize (Node.run none (Grammar.parse .statement source).produced
      session.scopes).scopes = scopes at inForce
    cases inForce with
    | @cons _ after _ _ here others =>
        cases others
        refine ⟨after, rfl, fun name => ?_⟩
        rw [← here name, declared name, Std.ExtTreeMap.mem_keys]

/-- A variable that is hidden in a block, and an assignment out of it. -/
theorem scoping_is_static_block :
    ∃ global : Scope, ({ mode := .statement } : Session).scopes = [global] ∧
      Session.evaluate { mode := .statement } "var x; \x7b var y; y = x; var x; x = y; \x7d" =
        Session.executeResolved { mode := .statement } (Node.resolveAll [global.keys]
          (Grammar.parse .statement
            "var x; \x7b var y; y = x; var x; x = y; \x7d").produced).1 ∧
      ((Session.evaluate { mode := .statement }
          "var x; \x7b var y; y = x; var x; x = y; \x7d").1.errors = [] →
        ∃ after : Scope, (Session.evaluate { mode := .statement }
            "var x; \x7b var y; y = x; var x; x = y; \x7d").2.scopes = [after] ∧
          ∀ name, name ∈ after ↔ name ∈ global ∨ name ∈ (Grammar.parse .statement
            "var x; \x7b var y; y = x; var x; x = y; \x7d").produced.filterMap
              Node.declared?) :=
  scoping_is_static (.start .statement) rfl _ (by decide +kernel)

end TreeWalk
