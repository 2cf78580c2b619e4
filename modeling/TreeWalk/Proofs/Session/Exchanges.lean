import TreeWalk.Proofs.Session.Pieces
import TreeWalk.Proofs.Text.Lines

/-!
# Line by line

A session that evaluates the lines of a text one after the other, and one that evaluates the
whole text. If no line has an error, the text prints what the lines print, and has the value of
the last line with a node in it.
-/

namespace TreeWalk

/-- A text and the response of a session to it. -/
structure Exchange where
  text : String
  response : Response

namespace Exchange

/-- Whether the text of the exchange has a node. -/
def hasNode (exchange : Exchange) : Bool :=
  !(Grammar.parse .statement exchange.text).produced.isEmpty

/-- The value of the last exchange whose text has a node. -/
def lastValue (exchanges : List Exchange) : Option Value :=
  (exchanges.filter hasNode).getLast?.bind fun exchange => exchange.response.value

/-- The lines that were printed in the exchanges. -/
def printed (exchanges : List Exchange) : List String :=
  exchanges.flatMap fun exchange => exchange.response.printed

variable {exchange : Exchange} {exchanges : List Exchange}

/-- Behind the first exchange the last value is theirs, if any of them has a node. -/
theorem lastValue_cons_of_some (exchange : Exchange)
    (some : ¬ ∀ other ∈ exchanges, other.hasNode = false) :
    lastValue (exchange :: exchanges) = lastValue exchanges := by
  have found : exchanges.filter hasNode ≠ [] := by simpa [List.filter_eq_nil_iff] using some
  rw [lastValue, lastValue, List.filter_cons]
  split
  next => rw [List.getLast?_cons_of_ne_nil found]
  next => rfl

/-- If none of the others has a node, the last value is that of the first exchange. -/
theorem lastValue_cons_of_none (none : ∀ other ∈ exchanges, other.hasNode = false)
    (silent : exchange.hasNode = false → exchange.response.value = Option.none) :
    lastValue (exchange :: exchanges) = exchange.response.value := by
  have nothing : exchanges.filter hasNode = [] := by simpa [List.filter_eq_nil_iff] using none
  rw [lastValue, List.filter_cons, nothing]
  cases has : exchange.hasNode with
  | true => rfl
  | false => exact (silent has).symm

end Exchange

namespace Session

/-- The exchange about a text. -/
def exchange (session : Session) (text : String) : Exchange where
  text := text
  response := (session.evaluate text).1

/-- The exchanges of a session about texts in turn, each as the others before it left the
session. -/
def exchanges (session : Session) : List String → List Exchange
  | [] => []
  | text :: texts => session.exchange text :: (session.evaluate text).2.exchanges texts

variable {session : Session} {source line : String}

/-- An exchange has no node if none is read from its text. -/
theorem hasNode_exchange :
    (session.exchange source).hasNode = false ↔
      (Grammar.parse .statement source).produced = [] := by
  simp [exchange, Exchange.hasNode]

/-- A text without nodes has no value. -/
theorem value_of_nothing (statements : session.mode = .statement)
    (clean : (session.evaluate source).1.errors = [])
    (nothing : (session.exchange source).hasNode = false) :
    (session.exchange source).response.value = none := by
  have reads := parse_of_evaluate statements clean
  rw [exchange, evaluate_of_statements statements reads, hasNode_exchange.1 nothing]
  rfl

/-- The exchanges about the lines of a text add up to the text: it is read without errors, it has a
node if one of them does, and evaluating it prints what they print and leaves their last value. -/
structure Sums (session : Session) (text : String) (exchanges : List Exchange) : Prop where
  reads : (Grammar.parse .statement text).errors = []
  nodes : (Grammar.parse .statement text).produced = [] ↔
    ∀ exchange ∈ exchanges, exchange.hasNode = false
  runs : (session.evaluate text).1 =
    ⟨Exchange.lastValue exchanges, [], Exchange.printed exchanges⟩

/-- No exchanges at all add up to the empty text. -/
theorem sums_nil (statements : session.mode = .statement) : session.Sums "" [] := by
  have read := Grammar.parse_empty .statement
  refine ⟨by rw [read], by simp [read], ?_⟩
  rw [evaluate_of_statements statements (by rw [read]), read]
  rfl

/-- A line adds up to itself. -/
theorem sums_single (statements : session.mode = .statement)
    (clean : (session.evaluate line).1.errors = []) :
    session.Sums line [session.exchange line] := by
  refine ⟨parse_of_evaluate statements clean, ?_, ?_⟩
  · rw [List.forall_mem_singleton, hasNode_exchange]
  · rw [Exchange.lastValue_cons_of_none (by simp) (value_of_nothing statements clean), ← clean]
    simp [Exchange.printed, exchange]

/-- In front of a text stands a line, which is read as the one that was evaluated. -/
theorem Sums.cons {front more : String} {exchanges : List Exchange}
    (statements : session.mode = .statement)
    (same : Grammar.parse .statement front = Grammar.parse .statement line)
    (clean : (session.evaluate line).1.errors = [])
    (behind : (session.evaluate line).2.Sums more exchanges) :
    session.Sums (front ++ "\n" ++ more) (session.exchange line :: exchanges) := by
  have lineReads := parse_of_evaluate statements clean
  have reads := Grammar.parse_append_lineBreak (same ▸ lineReads) behind.reads
  rw [same] at reads
  refine ⟨by rw [reads], ?_, ?_⟩
  · rw [reads, List.append_eq_nil_iff, List.map_eq_nil_iff, behind.nodes, List.forall_mem_cons,
      hasNode_exchange]
  · have lineRuns := evaluate_of_statements statements lineReads
    have moreRuns := evaluate_of_statements ((mode_evaluate session line).trans statements)
      behind.reads
    have runs := behind.runs
    have printed : Exchange.printed (session.exchange line :: exchanges) =
        (session.evaluate line).1.printed ++ Exchange.printed exchanges := rfl
    -- The value is that of the last text with a node, which may be the line in front.
    have value : Exchange.lastValue (session.exchange line :: exchanges) =
        if (Grammar.parse .statement more).produced = [] then (session.evaluate line).1.value
        else Exchange.lastValue exchanges := by
      split
      next nothing =>
        exact Exchange.lastValue_cons_of_none (behind.nodes.1 nothing)
          (value_of_nothing statements clean)
      next something => exact Exchange.lastValue_cons_of_some _ (something ∘ behind.nodes.2)
    rw [value, printed, evaluate_of_statements statements (by rw [reads]), reads]
    rw [lineRuns] at clean moreRuns runs ⊢
    rw [moreRuns] at runs
    have all := completed_of_execute (congrArg Response.errors runs)
    rw [execute_append_of_done _ clean, execute_relocate, Node.completed_relocate, all, runs]
    cases (Grammar.parse .statement more).produced <;> simp

/-- Reading a line is as reading it with the carriage return that it came with. -/
theorem parse_withoutMark {front : List Char}
    (clean : (Grammar.parse .statement (String.ofList (Text.withoutMark '\r' front))).errors = []) :
    Grammar.parse .statement (String.ofList front) =
      Grammar.parse .statement (String.ofList (Text.withoutMark '\r' front)) := by
  have cases := Text.eq_or_eq_concat '\r' front
  generalize Text.withoutMark '\r' front = line at clean cases ⊢
  rcases cases with rfl | rfl
  · rfl
  · rw [String.ofList_append]
    exact Grammar.parse_append_return clean

/-- If no line of a text has an error, the exchanges about the lines add up to the text. -/
theorem sums_lines (statements : session.mode = .statement) (text : List Char)
    (clean : ∀ exchange ∈ session.exchanges ((Text.linesBy '\n' '\r' text).map String.ofList),
      exchange.response.errors = []) :
    session.Sums (String.ofList text)
      (session.exchanges ((Text.linesBy '\n' '\r' text).map String.ofList)) := by
  induction text using Text.lines_induction '\n' generalizing session with
  | nil => exact sums_nil statements
  | rest text unbroken nonempty =>
      rw [Text.linesBy_rest unbroken nonempty] at clean ⊢
      exact sums_single statements (clean _ List.mem_cons_self)
  | line front more unbroken inductionHypothesis =>
      rw [Text.linesBy_line unbroken, List.map_cons, exchanges] at clean ⊢
      obtain ⟨here, later⟩ := List.forall_mem_cons.1 clean
      have behind := inductionHypothesis ((mode_evaluate session _).trans statements) later
      have same := parse_withoutMark (parse_of_evaluate statements here)
      have whole : String.ofList (front ++ '\n' :: more) =
          String.ofList front ++ "\n" ++ String.ofList more := by
        rw [← List.singleton_append, String.ofList_append, String.ofList_append,
          String.append_assoc]
      rw [whole]
      exact behind.cons statements same here

end Session

end TreeWalk
