import TreeWalk.Proofs.Evaluation.Declarations

/-!
# Scope discipline

Whatever is asked of a session, and however it ends, the session is left with one scope. It
holds the names that were ever declared outside of blocks, and the lines printed so far are
the earlier ones with others behind them.
-/

namespace TreeWalk

/-- What is asked of a session: to read a text and run it, or to run nodes. -/
inductive Call where
  | evaluate (source : String)
  | execute (nodes : List Node)

/-- The nodes that a call runs. A text with static errors runs none. -/
def Call.nodes (mode : Mode) : Call → List Node
  | evaluate source =>
      let parsed := Grammar.parse mode source
      if parsed.errors.isEmpty then parsed.produced else []
  | execute nodes => nodes

namespace Session

/-- What the session answers to a call, and the session behind it. -/
def answer (session : Session) : Call → Response × Session
  | .evaluate source => session.evaluate source
  | .execute nodes => session.execute nodes

/-- The session behind calls that are made one after the other. -/
def after (session : Session) (calls : List Call) : Session :=
  calls.foldl (fun session call => (session.answer call).2) session

/-- One of the calls declares the name in the global scope. -/
def Declares (session : Session) (calls : List Call) (name : String) : Prop :=
  ∃ earlier call later, calls = earlier ++ call :: later ∧
    Node.RunDeclares name (call.nodes session.mode) (session.after earlier).scopes

variable {session : Session} {call : Call} {calls : List Call} {name : String}

@[simp] theorem after_nil : session.after [] = session := rfl

@[simp] theorem after_cons :
    session.after (call :: calls) = (session.answer call).2.after calls := rfl

/-- Calls that are made behind others find the session as those left it. -/
theorem after_append (earlier later : List Call) :
    session.after (earlier ++ later) = (session.after earlier).after later :=
  List.foldl_append

/-- A call does to the session what running its nodes does. -/
theorem answer_run (session : Session) (call : Call) :
    (session.answer call).2 =
      { session with
        scopes := (Node.run none (call.nodes session.mode) session.scopes).scopes
        printed := session.printed ++
          (Node.run none (call.nodes session.mode) session.scopes).printed } := by
  cases call with
  | execute nodes => rfl
  | evaluate source =>
      rw [answer, evaluate, Call.nodes]
      split
      · rfl
      · simp [Node.run]

/-- A call lets the scopes grow at most. -/
theorem grows_answer (call : Call) (nonempty : session.scopes ≠ []) :
    Scopes.Grows session.scopes (session.answer call).2.scopes := by
  rw [answer_run]
  exact Node.grows_run none _ nonempty

/-- Calls let the scopes grow at most. -/
theorem grows_after (calls : List Call) (nonempty : session.scopes ≠ []) :
    Scopes.Grows session.scopes (session.after calls).scopes := by
  induction calls generalizing session with
  | nil => exact .refl nonempty
  | cons call calls inductionHypothesis =>
      have growth := grows_answer call nonempty
      exact growth.trans (inductionHypothesis growth.ne_nil)

/-- Calls declare a name if the first one does, or the others behind it. -/
theorem declares_cons :
    session.Declares (call :: calls) name ↔
      Node.RunDeclares name (call.nodes session.mode) session.scopes ∨
        (session.answer call).2.Declares calls name := by
  have mode : (session.answer call).2.mode = session.mode := by rw [answer_run]
  rw [Declares, Declares, mode]
  constructor
  · rintro ⟨_ | ⟨_, earlier⟩, _, later, placed, declares⟩
    · cases placed
      exact .inl declares
    · cases placed
      exact .inr ⟨earlier, _, later, rfl, declares⟩
  · rintro (declares | ⟨earlier, other, later, rfl, declares⟩)
    · exact ⟨[], call, calls, rfl, declares⟩
    · exact ⟨call :: earlier, other, later, rfl, declares⟩

/-- The innermost scope has the names that it had, and those that the calls declare. -/
theorem hasLocal_after (session : Session) (calls : List Call) (name : String)
    (nonempty : session.scopes ≠ []) :
    (session.after calls).scopes.HasLocal name ↔
      session.scopes.HasLocal name ∨ session.Declares calls name := by
  induction calls generalizing session with
  | nil => simp [Declares]
  | cons call calls inductionHypothesis =>
      have here := Node.hasLocal_run name none (call.nodes session.mode) nonempty
      have growth := grows_answer call nonempty
      rw [after_cons, inductionHypothesis _ growth.ne_nil, declares_cons, ← or_assoc, ← here,
        answer_run]

/-- Calls print behind what was printed before. -/
theorem printed_prefix_after (session : Session) (calls : List Call) :
    session.printed <+: (session.after calls).printed := by
  induction calls generalizing session with
  | nil => exact List.prefix_rfl
  | cons call calls inductionHypothesis =>
      have here : session.printed <+: (session.answer call).2.printed := by
        rw [answer_run]
        exact List.prefix_append _ _
      exact here.trans (inductionHypothesis _)

/-- Behind calls on a session with one scope there is one scope. -/
theorem exists_scopes_after (session : Session) {scope : Scope}
    (single : session.scopes = [scope]) (calls : List Call) :
    ∃ grown : Scope, (session.after calls).scopes = [grown] ∧
      ∀ name, name ∈ scope → name ∈ grown := by
  have nonempty : session.scopes ≠ [] := by simp [single]
  have growth := grows_after calls nonempty
  rw [single] at growth
  generalize (session.after calls).scopes = scopes at growth ⊢
  cases growth with
  | intro kept same =>
      cases same
      exact ⟨_, rfl, kept⟩

end Session

/-- Scopes are kept in discipline. A node, whether it completes or fails at any depth, keeps
the number of scopes, the names of every scope but the innermost, and there all names that it
had; an expression keeps the names of all scopes and prints nothing. Calls only ever add to
what a session printed. So behind any calls on a new session there is one scope, the names in
it are those that the calls declared, and earlier names and lines are still there. -/
theorem scope_discipline :
    (∀ (node : Node) (scope : Scope) (outer : Scopes), ∃ (grown : Scope) (others : Scopes),
      (node.eval (scope :: outer)).scopes = grown :: others ∧
        (∀ name, name ∈ scope → name ∈ grown) ∧ List.Forall₂ Scope.SameNames outer others) ∧
    (∀ (value : Expr) (scopes : Scopes),
      List.Forall₂ Scope.SameNames scopes (value.eval scopes).scopes ∧
        (value.eval scopes).printed = []) ∧
    (∀ (session : Session) (calls : List Call),
      session.printed <+: (session.after calls).printed) ∧
    (∀ (mode : Mode) (earlier later : List Call), ∃ before now : Scope,
      (Session.after { mode } earlier).scopes = [before] ∧
      (Session.after { mode } (earlier ++ later)).scopes = [now] ∧
      (∀ name, name ∈ now ↔ Session.Declares { mode } (earlier ++ later) name) ∧
      (∀ name, name ∈ before → name ∈ now) ∧
      (Session.after { mode } earlier).printed <+:
        (Session.after { mode } (earlier ++ later)).printed) := by
  refine ⟨?_, ?_, Session.printed_prefix_after, ?_⟩
  · intro node scope outer
    have growth := node.grows_eval (scope :: outer) (List.cons_ne_nil _ _)
    generalize (node.eval (scope :: outer)).scopes = scopes at growth ⊢
    cases growth with
    | intro kept same => exact ⟨_, _, rfl, kept, same⟩
  · intro value scopes
    exact ⟨value.quiet_eval.names scopes, value.quiet_eval.silent scopes⟩
  · intro mode earlier later
    let session : Session := { mode }
    obtain ⟨before, single, _⟩ := session.exists_scopes_after rfl earlier
    obtain ⟨now, singleNow, kept⟩ := (session.after earlier).exists_scopes_after single later
    rw [← Session.after_append] at singleNow
    refine ⟨before, now, single, singleNow, ?_, kept, ?_⟩
    · intro name
      -- The session begins with one empty scope, so all names in the last one were declared.
      have names := session.hasLocal_after (earlier ++ later) name (List.cons_ne_nil _ _)
      rw [singleNow] at names
      simpa [session, Scopes.HasLocal, Scopes.initial] using names
    · rw [Session.after_append]
      exact Session.printed_prefix_after _ later

end TreeWalk
