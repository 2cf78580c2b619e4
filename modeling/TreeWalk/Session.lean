import TreeWalk.Evaluation
import TreeWalk.Grammar.Program

/-!
# Sessions

A session runs one text after another against the same scopes and collects the lines
that they print. A text with static errors is not run at all.
-/

namespace TreeWalk

/-- What running a program did: the value of the last node that completed, the error that
ended the run, if one did, the scopes after it and the lines that it printed. -/
structure Run where
  value : Option Value
  error : Option RuntimeError
  scopes : Scopes
  printed : List String

/-- Runs the nodes of a program in turn, up to the first error. -/
def Node.run (last : Option Value) : List Node → Scopes → Run
  | [], scopes => ⟨last, none, scopes, []⟩
  | node :: nodes, scopes =>
      match node.eval scopes with
      | ⟨.ok value, middle, printed⟩ =>
          let rest := Node.run value nodes middle
          { rest with printed := printed ++ rest.printed }
      | ⟨.error error, after, printed⟩ => ⟨last, some error, after, printed⟩

/-- What a session answers to a text. -/
structure Response where
  value : Option Value
  errors : List Error
  printed : List String

/-- A session: how its texts are read, the scopes that they share and all lines that they
printed so far. -/
structure Session where
  mode : Mode
  scopes : Scopes := .initial
  printed : List String := []

namespace Session

/-- Runs nodes in the session. -/
def execute (session : Session) (nodes : List Node) : Response × Session :=
  let run := Node.run none nodes session.scopes
  ({ value := run.value
     errors := (run.error.map Error.runtime).toList
     printed := run.printed },
   { session with
     scopes := run.scopes
     printed := session.printed ++ run.printed })

/-- Reads a text and runs it, unless it has static errors. -/
def evaluate (session : Session) (source : String) : Response × Session :=
  let parsed := Grammar.parse session.mode source
  if parsed.errors.isEmpty then session.execute parsed.produced
  else (⟨none, parsed.errors, []⟩, session)

end Session

end TreeWalk
