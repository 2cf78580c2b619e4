import TreeWalk.Proofs.Console.Agreement
import TreeWalk.Proofs.Session.Exchanges

/-!
# Dialogues

A dialogue about a text is one session that evaluates the lines of the text, whatever they are.
As long as no line has an error, running a file with the text prints the same.
-/

namespace TreeWalk

namespace Console

/-- What is shown of an exchange: the lines that were printed, the value if there is one, and
the prompt for the next text. -/
def shown (exchange : Exchange) : String :=
  lines (exchange.response.printed ++ (exchange.response.value.map Value.text).toList) ++ prompt

/-- The errors of an exchange, each on a line. -/
def complaints (exchange : Exchange) : List String :=
  exchange.response.errors.map Error.message

/-- The exchanges of a session of its own about the lines of a text. -/
def exchangesAbout (text : String) : List Exchange :=
  Session.exchanges { mode := .statement } (Text.linesOf text)

/-- Lines are shown one after the other, however they are divided. -/
theorem lines_append (first second : List String) :
    lines (first ++ second) = lines first ++ lines second := by
  simp [lines, String.join_append]

section Lines

variable {line : List UInt8}

/-- A byte in front of a line is the line's first one, if it does not belong to a line break. -/
theorem cutLines_cons {byte : UInt8} {bytes : List UInt8} (other : byte ≠ 10)
    (inside : byte = 13 → bytes.head? ≠ some 10) :
    cutLines (byte :: bytes) = (byte :: (cutLines bytes).headD []) :: (cutLines bytes).tail := by
  rw [cutLines]
  · cases cutLines bytes <;> rfl
  · exact other
  · rintro more rfl rfl
    exact inside rfl rfl

/-- An input without a line break is a line, unless it is empty. -/
theorem cutLines_rest (unbroken : 10 ∉ line) (nonempty : line ≠ []) : cutLines line = [line] := by
  induction line with
  | nil => exact absurd rfl nonempty
  | cons byte bytes inductionHypothesis =>
      rw [List.mem_cons, not_or] at unbroken
      obtain ⟨other, unbroken⟩ := unbroken
      rw [cutLines_cons (Ne.symm other) fun _ next => unbroken (List.mem_of_head? next)]
      cases bytes with
      | nil => rfl
      | cons => rw [inductionHypothesis unbroken (List.cons_ne_nil _ _)]; rfl

/-- Behind a line break the lines are those of the input there. -/
theorem cutLines_line (unbroken : 10 ∉ line) (more : List UInt8) :
    cutLines (line ++ 10 :: more) = Text.withoutMark 13 line :: cutLines more := by
  induction line with
  | nil => rfl
  | cons byte bytes inductionHypothesis =>
      rw [List.mem_cons, not_or] at unbroken
      obtain ⟨other, unbroken⟩ := unbroken
      have behind := inductionHypothesis unbroken
      cases bytes with
      | nil =>
          by_cases returns : byte = 13
          case pos =>
            rw [returns]
            rfl
          case neg =>
            rw [List.singleton_append,
              cutLines_cons (Ne.symm other) fun same => absurd same returns, cutLines]
            simp [Text.withoutMark, returns]
      | cons next bytes =>
          have inside : byte = 13 → ((next :: bytes) ++ 10 :: more).head? ≠ some 10 :=
            fun _ same => unbroken (List.mem_of_head? same)
          rw [List.cons_append, cutLines_cons (Ne.symm other) inside, behind,
            Text.withoutMark_cons (List.cons_ne_nil next bytes)]
          rfl

/-- An input is cut into its lines. -/
theorem cutLines_eq (input : List UInt8) : cutLines input = Text.linesBy 10 13 input := by
  induction input using Text.lines_induction (10 : UInt8) with
  | nil => rw [Text.linesBy_nil, cutLines]
  | rest text unbroken nonempty =>
      rw [Text.linesBy_rest unbroken nonempty, cutLines_rest unbroken nonempty]
  | line front more unbroken inductionHypothesis =>
      rw [Text.linesBy_line unbroken, cutLines_line unbroken, inductionHypothesis]

end Lines

/-- The lines of a string, as bytes. -/
theorem cutLines_toUTF8 (text : String) :
    cutLines text.toUTF8.data.toList = (Text.linesBy '\n' '\r' text.toList).map Text.bytes := by
  rw [Text.toUTF8_toList, cutLines_eq]
  exact Text.linesBy_bytes text.toList

/-- A line of text is evaluated, whatever it is. -/
theorem respond_bytes (session : Session) (text : List Char) :
    respond session (Text.bytes text) =
      (⟨shown (session.exchange (String.ofList text)),
        lines (complaints (session.exchange (String.ofList text))), 0⟩,
        some (session.evaluate (String.ofList text)).2) := by
  rw [respond, Text.fromUTF8?_bytes]
  rfl

/-- Lines of text are evaluated in turn. -/
theorem converse_bytes (session : Session) (texts : List (List Char)) :
    converse session (texts.map Text.bytes) =
      ⟨String.join ((session.exchanges (texts.map String.ofList)).map shown),
        lines ((session.exchanges (texts.map String.ofList)).flatMap complaints), 0⟩ := by
  induction texts generalizing session with
  | nil => rfl
  | cons text texts inductionHypothesis =>
      rw [List.map_cons, List.map_cons, converse, respond_bytes]
      dsimp only
      rw [inductionHypothesis, Session.exchanges, List.map_cons, String.join_cons,
        List.flatMap_cons, lines_append]

/-- A dialogue about a text asks for its first line, evaluates all its lines and ends well. -/
theorem dialogue_toUTF8 (text : String) :
    dialogue text.toUTF8 =
      ⟨prompt ++ String.join ((exchangesAbout text).map shown),
        lines ((exchangesAbout text).flatMap complaints), 0⟩ := by
  rw [dialogue, cutLines_toUTF8, converse_bytes]
  rfl

/-- A file whose lines have no errors runs as they do. -/
theorem onFile_run_toUTF8 {text : String} (path : String)
    (clean : ∀ exchange ∈ exchangesAbout text, exchange.response.errors = []) :
    onFile .run path (.ok text.toUTF8) =
      ⟨lines (Exchange.printed (exchangesAbout text) ++
        ((Exchange.lastValue (exchangesAbout text)).map Value.text).toList), "", 0⟩ := by
  have sums := @Session.sums_lines { mode := .statement } rfl text.toList clean
  have runs := sums.runs
  rw [String.ofList_toList] at runs
  rw [onFile_of_text (Text.fromUTF8?_toUTF8 text), Command.report, Console.evaluate, answer]
  dsimp only
  rw [runs]
  rfl

end Console

open Console in
/-- A dialogue and a file agree. Whatever the text, a dialogue about it ends well: it evaluates the
lines of the text in one session, each whatever errors the others had, shows behind a first prompt
what is shown of every line, and reports the errors of all lines in order. If no line has an error,
running a file with the text ends well too, without errors. It shows the lines that were printed in
the dialogue, then the value of the last line with a node in it, if that line has a value. -/
theorem dialogue_agrees_with_file (text : String) :
    dialogue text.toUTF8 =
      ⟨prompt ++ String.join ((exchangesAbout text).map shown),
        lines ((exchangesAbout text).flatMap complaints), 0⟩ ∧
    ((∀ exchange ∈ exchangesAbout text, exchange.response.errors = []) →
      ∀ path, onFile .run path (.ok text.toUTF8) =
        ⟨lines (Exchange.printed (exchangesAbout text) ++
          ((Exchange.lastValue (exchangesAbout text)).map Value.text).toList), "", 0⟩) :=
  ⟨dialogue_toUTF8 text, fun clean path => onFile_run_toUTF8 path clean⟩

open Console in
/-- Lines with and without a carriage return, one of them blank, and two with comments. -/
theorem dialogue_agrees_with_file_comments :
    let text := "print \"é\";\r\n\n// one \"\r\nnil == nil; true;\n// end\r"
    dialogue text.toUTF8 = ⟨"> é\n> > > true\n> > ", "", 0⟩ ∧
      onFile .run "lines.lox" (.ok text.toUTF8) = ⟨"é\ntrue\n", "", 0⟩ := by
  intro text
  obtain ⟨inTurn, atOnce⟩ := dialogue_agrees_with_file text
  have clean : ∀ exchange ∈ exchangesAbout text, exchange.response.errors = [] := by decide +kernel
  rw [inTurn, atOnce clean]
  exact ⟨by decide +kernel, by decide +kernel⟩

end TreeWalk
