import TreeWalk.Session
import TreeWalk.Syntax.Prefix

/-!
# Console

What each command writes to its two streams, and its exit code. Errors go to the error
stream, one line each, and everything else to the output stream.
-/

namespace TreeWalk.Console

/-- What a command writes, and its exit code. -/
structure Report where
  output : String
  errors : String
  exit : Nat
deriving DecidableEq, Repr

/-- Text lines, each with its line break. -/
def lines (texts : List String) : String :=
  String.join (texts.map (· ++ "\n"))

/-- Lists the tokens of a source. -/
def tokenize (source : String) : Report :=
  let scanned := scan source
  { output := lines (scanned.produced.map (·.kind.listing) ++ ["EOF  null"])
    errors := lines (scanned.errors.map LexicalError.message)
    exit := Error.exitCodeOf (scanned.errors.map Error.lexical) }

/-- Writes the expressions of a source in prefix form. -/
def parse (source : String) : Report :=
  let parsed := Grammar.parse .expression source
  { output := lines (parsed.produced.map Node.prefixForm)
    errors := lines (parsed.errors.map Error.message)
    exit := Error.exitCodeOf parsed.errors }

/-- What a session shows of a text that it evaluated: the lines that were printed, then
the value if there is one. -/
def answer (session : Session) (source : String) : Report × Session :=
  let (response, after) := session.evaluate source
  ({ output := lines (response.printed ++ (response.value.map Value.text).toList)
     errors := lines (response.errors.map Error.message)
     exit := Error.exitCodeOf response.errors }, after)

/-- Evaluates a source in a session of its own. -/
def evaluate (mode : Mode) (source : String) : Report :=
  (answer { mode } source).1

/-- The commands that work on one file. -/
inductive Command where
  | tokenize | parse | evaluate | run
deriving DecidableEq, Repr

namespace Command

/-- Every command on a file. -/
def all : List Command :=
  [tokenize, parse, evaluate, run]

/-- The word that calls the command. -/
def name : Command → String
  | tokenize => "tokenize"
  | parse => "parse"
  | evaluate => "evaluate"
  | run => "run"

/-- What the command does with a source. -/
def report : Command → String → Report
  | tokenize => Console.tokenize
  | parse => Console.parse
  | evaluate => Console.evaluate .expression
  | run => Console.evaluate .statement

end Command

/-- What is amiss with bytes that are no text. -/
def notText : String := "stream did not contain valid UTF-8"

/-- What is amiss with a path that leads nowhere. -/
def noSuchFile : String := "No such file or directory (os error 2)"

/-- The report on a file that cannot be read, for a reason. -/
def unreadable (path reason : String) : Report where
  output := ""
  errors := lines ["Failed to read the input file '" ++ path ++ "': " ++ reason]
  exit := 1

/-- Puts a command to the content of a file, or to the reason why there is none. -/
def onFile (command : Command) (path : String) : Except String ByteArray → Report
  | .error reason => unreadable path reason
  | .ok bytes =>
      match String.fromUTF8? bytes with
      | some source => command.report source
      | none => unreadable path notText

/-- What asks for the next line. -/
def prompt : String := "> "

/-- The lines of an input. A line ends at a line break, to which one carriage return
before it belongs; what follows the last break is a line unless it is empty. -/
def cutLines : List UInt8 → List (List UInt8)
  | [] => []
  | 10 :: bytes => [] :: cutLines bytes
  | 13 :: 10 :: bytes => [] :: cutLines bytes
  | byte :: bytes =>
      match cutLines bytes with
      | [] => [[byte]]
      | line :: others => (byte :: line) :: others

/-- What a session shows of one line of input, and the session behind it. A line that is
no text ends the session. -/
def respond (session : Session) (line : List UInt8) : Report × Option Session :=
  match String.fromUTF8? ⟨line.toArray⟩ with
  | none => (⟨"", lines ["Error reading input: " ++ notText], 1⟩, none)
  | some source =>
      let (report, after) := answer session source
      (⟨report.output ++ prompt, report.errors, 0⟩, some after)

/-- What a session shows of lines of input. -/
def converse (session : Session) : List (List UInt8) → Report
  | [] => ⟨"", "", 0⟩
  | line :: others =>
      match respond session line with
      | (report, none) => report
      | (report, some after) =>
          let rest := converse after others
          ⟨report.output ++ rest.output, report.errors ++ rest.errors, rest.exit⟩

/-- Runs an input line by line in one session, asking for every line. -/
def dialogue (input : ByteArray) : Report :=
  let report := converse { mode := .statement } (cutLines input.data.toList)
  { report with output := prompt ++ report.output }

end TreeWalk.Console
