import TreeWalk.Console

/-!
# Command line

`tokenize`, `parse`, `evaluate` and `run` take a file; `run` without one holds a
dialogue on the standard streams.
-/

namespace TreeWalk.Main

open Console

/-- Writes a report to the standard streams. -/
def deliver (report : Report) : IO Unit := do
  (← IO.getStderr).putStr report.errors
  let output ← IO.getStdout
  output.putStr report.output
  output.flush

/-- The content of a file, or why there is none. -/
def content (path : String) : IO (Except String ByteArray) := do
  try
    return .ok (← IO.FS.readBinFile path)
  catch
    | .noFileOrDirectory .. => return .error noSuchFile
    | other => return .error (toString other)

/-- Responds to the lines one after the other; the result is the session behind them or
the exit code with which it ended. -/
def respondAll (session : Session) : List (List UInt8) → IO (Except Nat Session)
  | [] => return .ok session
  | line :: others => do
      let (report, after) := respond session line
      deliver report
      match after with
      | some after => respondAll after others
      | none => return .error report.exit

/-- Responds to every line as soon as it is complete. -/
partial def listen (input : IO.FS.Stream) (session : Session) (pending : List UInt8) :
    IO Nat := do
  let bytes ← input.read 4096
  if bytes.isEmpty then
    match ← respondAll session (cutLines pending) with
    | .ok _ => return 0
    | .error exit => return exit
  let arrived := pending ++ bytes.toList
  let unfinished := (arrived.reverse.takeWhile (· ≠ 10)).reverse
  match ← respondAll session (cutLines (arrived.take (arrived.length - unfinished.length))) with
  | .ok after => listen input after unfinished
  | .error exit => return exit

/-- How the program is called. -/
def usage : String :=
  "usage: treewalk tokenize FILE | parse FILE | evaluate FILE | run [FILE]"

/-- Does what the arguments ask for; the result is the exit code. -/
def dispatch (arguments : List String) : IO Nat := do
  match arguments with
  | ["run"] =>
      deliver ⟨prompt, "", 0⟩
      listen (← IO.getStdin) { mode := .statement } []
  | [word, path] =>
      match Command.all.find? (·.name == word) with
      | some command =>
          let report := onFile command path (← content path)
          deliver report
          return report.exit
      | none =>
          deliver ⟨"", lines [usage], 2⟩
          return 2
  | _ =>
      deliver ⟨"", lines [usage], 2⟩
      return 2

end TreeWalk.Main

def main (arguments : List String) : IO UInt32 := do
  return (← TreeWalk.Main.dispatch arguments).toUInt32
