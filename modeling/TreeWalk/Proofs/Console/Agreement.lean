import TreeWalk.Console
import TreeWalk.Proofs.Evaluation.Blame
import TreeWalk.Proofs.Session.Stages
import TreeWalk.Proofs.Token.Rescan

/-!
# The commands agree

The commands reach the scanner, the grammar and the evaluator along paths of their own. Yet what
one of them rejects, those that go further reject with the same report; and a command exits as a
failed run does only where the run itself fails, which it tells on one line.
-/

namespace TreeWalk

/-- The text has no line break. -/
def SingleLine (text : String) : Prop :=
  '\n' ∉ text.toList

instance (text : String) : Decidable (SingleLine text) :=
  inferInstanceAs (Decidable ('\n' ∉ text.toList))

namespace SingleLine

variable {text : String}

/-- Texts without line breaks make up a text without line breaks. -/
theorem append {first second : String} (before : SingleLine first) (behind : SingleLine second) :
    SingleLine (first ++ second) := by
  rw [SingleLine, String.toList_append, List.mem_append, not_or]
  exact ⟨before, behind⟩

/-- A number is written in digits. -/
theorem toString_nat (number : Nat) : SingleLine (toString number) := by
  intro present
  rw [Nat.toString_eq_repr, Nat.toList_repr] at present
  cases Nat.isDigit_of_mem_toDigits (by decide) (by decide) present

/-- What is reported of a text without line breaks has none either. -/
theorem report (single : SingleLine text) (span : Span) : SingleLine (span.report text) :=
  (((append (by decide) (toString_nat span.line)).append (by decide)).append single)

end SingleLine

/-- No character of an identifier breaks a line. -/
theorem Piece.Lexical.singleLine_identifier {name : String} {text : List Char}
    (lexical : Piece.Lexical ⟨.token (.identifier name), text⟩) : SingleLine name := by
  cases lexical with
  | identifier starts continues _ =>
      rw [SingleLine, String.toList_ofList, List.mem_cons, not_or]
      refine ⟨?_, fun present => ?_⟩
      · rintro rfl
        cases starts
      · cases continues '\n' present

/-- The text of an operation is a single line. -/
theorem Operation.singleLine_text (operation : Operation) : SingleLine operation.text := by
  rcases operation with operator | operator | _
  · cases operator <;> decide
  · cases operator <;> decide
  · decide

/-- What stops a run of scanned tokens is told on one line. -/
theorem RuntimeError.Blames.singleLine_message {tokens : List Token} {error : RuntimeError}
    (blames : Blames tokens error) (spelled : ∀ token ∈ tokens, token.kind.Spelled) :
    SingleLine error.message := by
  cases blames with
  | name present =>
      have single := (spelled _ present).singleLine_identifier
      exact ((SingleLine.append (by decide) single).append (by decide)).report _
  | @operation operation expected _ _ =>
      refine SingleLine.report ?_ _
      cases expected with
      | arithmetic => exact SingleLine.append (by decide) operation.singleLine_text
      | numbersOrStrings | numbers | number | boolean =>
          dsimp only
          decide
  | @construct construct _ _ begins _ =>
      refine SingleLine.report (SingleLine.append (by decide) ?_) _
      cases construct with
      | terminal =>
          -- No keyword begins a terminal, so the name of its kind is never told.
          cases begins
      | whileStatement | forStatement | returnStatement | classDeclaration
      | functionDeclaration => decide

/-- The errors of a static stage have one exit code, however many they are. -/
theorem Error.exitCodeOf_map {α : Type} {errors : List α} {stage : α → Error} (met : errors ≠ [])
    (static : ∀ error, (stage error).isStatic) : exitCodeOf (errors.map stage) = 65 := by
  obtain ⟨first, others, rfl⟩ := List.exists_cons_of_ne_nil met
  rw [List.map_cons, exitCodeOf, List.any_cons, static first]
  rfl

/-- A source is rejected as soon as a stage that reads it meets an error. -/
theorem Grammar.exitCodeOf_parse {mode : Mode} {source : String} :
    Error.exitCodeOf (parse mode source).errors = 65 ↔ (parse mode source).errors ≠ [] := by
  refine ⟨fun exits none => ?_, fun met => ?_⟩
  · rw [none] at exits
    cases exits
  by_cases scans : (scan source).errors = []
  case pos =>
    rw [parse_of_scanned mode scans] at met ⊢
    exact Error.exitCodeOf_map (met ∘ List.map_eq_nil_iff.2) fun _ => rfl
  case neg =>
    rw [parse_of_lexical mode scans]
    exact Error.exitCodeOf_map scans fun _ => rfl

/-- The exit code of a command whose call ends there. -/
def Ending.exitCode : Ending → Nat
  | lexical => 65
  | syntactic => 65
  | runtime => 70
  | finished => 0

namespace Session

variable {session : Session} {source : String} {ending : Ending}

/-- The exit code tells where the call ended, but for the two static stages. -/
theorem Ends.exitCodeOf_errors (ends : session.Ends source ending) :
    Error.exitCodeOf (session.evaluate source).1.errors = ending.exitCode := by
  cases ending with
  | lexical =>
      obtain ⟨met, errors⟩ := ends
      rw [errors]
      exact Error.exitCodeOf_map met fun _ => rfl
  | syntactic =>
      obtain ⟨_, met, errors⟩ := ends
      rw [errors]
      exact Error.exitCodeOf_map met fun _ => rfl
  | runtime =>
      obtain ⟨_, _, error, _, errors⟩ := ends
      rw [errors]
      rfl
  | finished =>
      obtain ⟨_, _, _, errors⟩ := ends
      rw [errors]
      rfl

/-- Only a run that fails has the exit code of one. -/
theorem ends_runtime_iff :
    session.Ends source .runtime ↔ Error.exitCodeOf (session.evaluate source).1.errors = 70 := by
  refine ⟨Ends.exitCodeOf_errors, fun exits => ?_⟩
  obtain ⟨ending, ends⟩ := session.exists_ends source
  have same := ends.exitCodeOf_errors.symm.trans exits
  cases ending with
  | runtime => exact ends
  | lexical | syntactic | finished => cases same

/-- A call that ends at a static stage does nothing. -/
theorem Ends.evaluate_of_static
    (static : session.Ends source .lexical ∨ session.Ends source .syntactic) :
    ∃ errors, session.evaluate source = (⟨none, errors, []⟩, session) := by
  rcases static with ⟨met, _⟩ | ⟨scans, met, _⟩
  · exact ⟨_, evaluate_of_lexical met⟩
  · exact ⟨_, evaluate_of_syntactic scans met⟩

/-- What stops a run of a source is told on one line. -/
theorem singleLine_message_of_run {error : RuntimeError}
    (stopped : (Node.run none
      (Grammar.program session.mode (scan source).produced).produced session.scopes).error =
        some error) : SingleLine error.message := by
  have blames := Node.allowed_of_run
    ((Grammar.stretches_nodes session.mode _ _).failsOnly_eval (List.Subset.refl _)) none
    session.scopes stopped
  exact blames.singleLine_message (munched_scan source).spelled

end Session

namespace Console

variable {mode : Mode} {source : String}

/-- How a command reads what it runs. -/
def Command.mode? : Command → Option Mode
  | tokenize => none
  | parse => none
  | evaluate => some .expression
  | run => some .statement

/-- A command that runs its source reports what the console makes of the source in its mode. -/
theorem Command.report_of_mode? {command : Command} (runs : command.mode? = some mode) :
    command.report source = Console.evaluate mode source := by
  cases command <;> cases runs <;> rfl

/-- A source that is rejected before it runs leaves its errors only. -/
theorem evaluate_of_rejected (rejected : (Grammar.parse mode source).errors ≠ []) :
    Console.evaluate mode source =
      ⟨"", lines ((Grammar.parse mode source).errors.map Error.message), 65⟩ := by
  have exits := Grammar.exitCodeOf_parse.2 rejected
  rw [Console.evaluate, answer, Session.evaluate_of_rejected rejected]
  simp only [exits]
  rfl

/-- A source with lexical errors leaves no more than a listing reports of it. -/
theorem report_of_lexical (met : (scan source).errors ≠ []) {command : Command}
    (further : command ≠ .tokenize) :
    command.report source = ⟨"", lines ((scan source).errors.map LexicalError.message), 65⟩ := by
  have read (mode : Mode) := Grammar.parse_of_lexical mode met
  have rejected (mode : Mode) : (Grammar.parse mode source).errors ≠ [] := by
    rw [read]
    simpa using met
  have told (mode : Mode) : (Grammar.parse mode source).errors.map Error.message =
      (scan source).errors.map LexicalError.message := by
    rw [read, List.map_map]
    rfl
  cases command with
  | tokenize => exact absurd rfl further
  | parse =>
      have exits := Grammar.exitCodeOf_parse.2 (rejected .expression)
      rw [Command.report, Console.parse, exits, told, read]
      rfl
  | evaluate => rw [Command.report, evaluate_of_rejected (rejected _), told]
  | run => rw [Command.report, evaluate_of_rejected (rejected _), told]

/-- A listing of a source is rejected if the source has lexical errors. -/
theorem tokenize_exit (source : String) :
    (Console.tokenize source).exit = 65 ↔ (scan source).errors ≠ [] := by
  refine ⟨fun exits none => ?_, fun met => ?_⟩
  · rw [Console.tokenize, none] at exits
    cases exits
  · exact Error.exitCodeOf_map met fun _ => rfl

/-- A failed run leaves one line. -/
theorem errors_of_runtime (ends : Session.Ends { mode } source .runtime) :
    ∃ line, SingleLine line ∧ (Console.evaluate mode source).errors = line ++ "\n" := by
  obtain ⟨_, _, error, stopped, errors⟩ := ends
  refine ⟨error.message, Session.singleLine_message_of_run stopped, ?_⟩
  have told : (Console.evaluate mode source).errors =
      lines ((Session.evaluate { mode } source).1.errors.map Error.message) := rfl
  rw [told, errors]
  rfl

/-- A file that is text is put to the command. -/
theorem onFile_of_text {bytes : ByteArray} (text : String.fromUTF8? bytes = some source)
    (command : Command) (path : String) : onFile command path (.ok bytes) = command.report source := by
  rw [onFile, text]

end Console

open Console in
/-- The errors of a call are those of one stage. Whatever the session, a call ends in exactly one
of four ways: with the errors of the scanner, with those of the grammar, with one error of the run,
or with none; and in the first two it has no value, prints nothing and leaves the session as it was.
So the commands agree on every file that is text. What a listing rejects, every other command
rejects with the same errors and no output; what is rejected in prefix form is rejected in
evaluation with the same errors; and evaluating or running the file exits as a failure exactly if
the run fails, on one line. -/
theorem errors_of_one_stage :
    (∀ (session : Session) (source : String),
      (∃! ending, session.Ends source ending) ∧
      (session.Ends source .lexical ∨ session.Ends source .syntactic →
        (session.evaluate source).1.value = none ∧ (session.evaluate source).1.printed = [] ∧
          (session.evaluate source).2 = session)) ∧
    ∀ (path : String) (bytes : ByteArray) (source : String),
      String.fromUTF8? bytes = some source →
      let report := fun command => onFile command path (.ok bytes)
      ((report .tokenize).exit = 65 → ∀ command, command ≠ .tokenize →
        report command = ⟨"", (report .tokenize).errors, 65⟩) ∧
      ((report .parse).exit = 65 → report .evaluate = ⟨"", (report .parse).errors, 65⟩) ∧
      ∀ command mode, command.mode? = some mode →
        ((report command).exit = 70 ↔ Session.Ends { mode } source .runtime) ∧
        ((report command).exit = 70 →
          ∃ line, SingleLine line ∧ (report command).errors = line ++ "\n") := by
  refine ⟨fun session source => ⟨?_, fun static => ?_⟩, ?_⟩
  · obtain ⟨ending, ends⟩ := session.exists_ends source
    exact ⟨ending, ends, fun _ others => others.unique ends⟩
  · obtain ⟨errors, nothing⟩ := Session.Ends.evaluate_of_static static
    rw [nothing]
    exact ⟨rfl, rfl, rfl⟩
  intro path bytes source text
  simp only [onFile_of_text text]
  refine ⟨fun exits command further => ?_, fun exits => ?_, fun command mode runs => ?_⟩
  · exact report_of_lexical ((tokenize_exit source).1 exits) further
  · exact evaluate_of_rejected (Grammar.exitCodeOf_parse.1 exits)
  · rw [Command.report_of_mode? runs]
    have failed : (Console.evaluate mode source).exit = 70 ↔
        Session.Ends { mode } source .runtime := Session.ends_runtime_iff.symm
    exact ⟨failed, fun exits => errors_of_runtime (failed.1 exits)⟩

open Console in
/-- A file with a stray character, one with a group that nothing closes, and one whose run
fails. -/
theorem errors_of_one_stage_files :
    ((Session.evaluate { mode := .statement } "print 1; $").1.printed = [] ∧
      onFile .run "stray.lox" (.ok "print 1; $".toUTF8) =
        ⟨"", (onFile .tokenize "stray.lox" (.ok "print 1; $".toUTF8)).errors, 65⟩) ∧
    onFile .evaluate "open.lox" (.ok "(nil".toUTF8) =
      ⟨"", (onFile .parse "open.lox" (.ok "(nil".toUTF8)).errors, 65⟩ ∧
    Session.Ends { mode := .statement } "print nil; -nil;" .runtime ∧
    ∃ line, SingleLine line ∧
      (onFile .run "fails.lox" (.ok "print nil; -nil;".toUTF8)).errors = line ++ "\n" := by
  obtain ⟨sessions, files⟩ := errors_of_one_stage
  obtain ⟨listed, _, _⟩ := files "stray.lox" "print 1; $".toUTF8 "print 1; $" (by decide +kernel)
  obtain ⟨_, read, _⟩ := files "open.lox" "(nil".toUTF8 "(nil" (by decide +kernel)
  obtain ⟨_, _, ran⟩ :=
    files "fails.lox" "print nil; -nil;".toUTF8 "print nil; -nil;" (by decide +kernel)
  obtain ⟨runtime, told⟩ := ran .run .statement rfl
  have stray : Session.Ends { mode := .statement } "print 1; $" .lexical :=
    ⟨by decide +kernel, by decide +kernel⟩
  exact ⟨⟨((sessions _ _).2 (.inl stray)).2.1, listed (by decide +kernel) .run (by decide)⟩,
    read (by decide +kernel), runtime.1 (by decide +kernel), told (by decide +kernel)⟩

end TreeWalk
