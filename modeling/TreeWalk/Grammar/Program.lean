import TreeWalk.Grammar.Descent
import TreeWalk.Token.Scan

/-!
# Reading programs

A program is read node by node. Where a node fails, its error is noted and reading goes
on behind the tokens that it took, so one pass reports every error it meets. A source
with lexical errors is not read at all.
-/

namespace TreeWalk.Grammar

/-- Reads nodes up to the end of the tokens. -/
def nodes (mode : Mode) (ending : Span) (tokens : List Token) :
    Outcome (List Node) SyntaxError :=
  match tokens with
  | [] => ⟨[], []⟩
  | token :: rest =>
      match topLevel mode ending (token :: rest) with
      | ⟨.ok node, left, _⟩ =>
          let others := nodes mode ending left
          ⟨node :: others.produced, others.errors⟩
      | ⟨.error error, left, _⟩ =>
          let others := nodes mode ending left
          ⟨others.produced, error :: others.errors⟩
termination_by tokens.length
decreasing_by all_goals (simp only [List.length_cons] at *; omega)

/-- The program that tokens make up, as far as they do. -/
def program (mode : Mode) (tokens : List Token) : Outcome (List Node) SyntaxError :=
  nodes mode (endingOf tokens) tokens

/-- The program that a source is, as far as it is one. -/
def parse (mode : Mode) (source : String) : Outcome (List Node) Error :=
  let scanned := scan source
  if scanned.errors.isEmpty then
    let read := program mode scanned.produced
    ⟨read.produced, read.errors.map Error.syntactic⟩
  else ⟨[], scanned.errors.map Error.lexical⟩

end TreeWalk.Grammar
