import Mathlib
import ProcLang.Command.Run
import ProcLang.Proofs.Text.Bytes

/-!
# Interactive sessions, line by line

Without a file the command answers the standard input line by line. An answer depends on the
line and on what is to be shown, and on nothing that came before, so a session on some lines and
then on anything else is the one session and then the other (`runLines_append`). What is shown
of a line, or the error in it, is what a run on a file with this content shows; only the name in
front of the error is another (`Source.process_name`). An error does not end the session; bytes
that are no text do (`runLines_code`).
-/

set_option autoImplicit false

namespace ProcLang

/-! ## Options -/

/-- The options that choose what is shown. -/
def IsDisplayOption (arg : String) : Prop :=
  arg = "--ast" ∨ arg = "--stats"

/-- What is shown behind some options. -/
def displayAfter (display : Display) (options : List String) : Display :=
  options.foldl (fun _ option => if option = "--ast" then .tree else .tally) display

namespace Invocation

/-- Options are read one by one and leave the file as it is. -/
theorem ofArgsFrom_options {options : List String}
    (chosen : ∀ option ∈ options, IsDisplayOption option) (display : Display)
    (file : Option String) (others : List String) :
    ofArgsFrom display file (options ++ others) =
      ofArgsFrom (displayAfter display options) file others := by
  induction options generalizing display with
  | nil => rfl
  | cons option options ih =>
      obtain ⟨first, chosen'⟩ := List.forall_mem_cons.1 chosen
      rcases first with rfl | rfl
      · show (if "--ast" = "--ast" then _ else _) = _
        rw [if_pos rfl]
        exact ih chosen' .tree
      · show (if "--stats" = "--ast" then _ else if "--stats" = "--stats" then _ else _) = _
        rw [if_neg (by decide), if_pos rfl]
        exact ih chosen' .tally

theorem ofArgs_options {options : List String}
    (chosen : ∀ option ∈ options, IsDisplayOption option) :
    ofArgs options = .run (displayAfter .source options) none := by
  have read := ofArgsFrom_options chosen .source none []
  rwa [List.append_nil] at read

/-- A file may stand anywhere among the options. -/
theorem ofArgs_file {before after : List String} {path : String}
    (chosen : ∀ option ∈ before ++ after, IsDisplayOption option)
    (proper : path.toList.head? ≠ some '-') :
    ofArgs (before ++ path :: after) =
      .run (displayAfter .source (before ++ after)) (some path) := by
  obtain ⟨first, last⟩ := List.forall_mem_append.1 chosen
  -- the path begins with no hyphen, so it is none of the options
  have other {option : String} (h : option.toList.head? = some '-') : path ≠ option :=
    fun same => proper (same ▸ h)
  have read := ofArgsFrom_options last (displayAfter .source before) (some path) []
  rw [List.append_nil] at read
  unfold ofArgs
  rw [ofArgsFrom_options first, ofArgsFrom, if_neg (other rfl), if_neg (other rfl),
    if_neg (not_or.2 ⟨other rfl, other rfl⟩), if_neg proper]
  show ofArgsFrom _ (some path) after = _
  rw [read, displayAfter, displayAfter, displayAfter, List.foldl_append]
  rfl

end Invocation

/-! ## Texts of bytes -/

/-- The bytes of a text are read as the text. -/
theorem decodeText_utf8Form (text : String) : decodeText (utf8Form text) = .ok text := by
  unfold decodeText utf8Form String.toUTF8
  rw [Array.toArray_toList, String.fromUTF8?, dif_pos text.isValidUTF8]
  rfl

/-- What is no text is not read. -/
theorem decodeText_of_not_isText {bytes : List UInt8} (h : ¬IsText bytes) :
    decodeText bytes = .error .notText := by
  have invalid : ¬ByteArray.IsValidUTF8 ⟨bytes.toArray⟩ := by
    intro valid
    refine h ⟨String.fromUTF8 _ valid, ?_⟩
    exact (List.toList_toArray).symm
  unfold decodeText
  rw [String.fromUTF8?, dif_neg invalid]

/-! ## Names in diagnostics -/

/-- The name of a source is only put in front of its diagnostics. -/
theorem Source.process_name (display : Display) (name content : String) :
    (Source.mk name content).process display =
      ((Source.mk "" content).process display).mapError (name ++ ·) := by
  unfold process
  dsimp only
  cases parseSource content with
  | ok p => rfl
  | error e =>
      show Except.error _ = Except.error _
      -- the place and the shown line are those of the content
      unfold render
      simp only [String.append_assoc, String.empty_append]
      rfl

/-! ## Answers -/

section Answers

variable (display : Display)

/-- What a text comes to: what is shown, and what is reported under a given name. -/
def outputs (content : String) : String × (String → String) :=
  match (Source.mk "" content).process display with
  | .ok shown => (shown, fun _ => "")
  | .error diagnostic => ("", (· ++ diagnostic))

/-- A name is only put in front of a report, if there is one. -/
theorem outputs_name (content : String) :
    (∀ name, (outputs display content).2 name = "") ∨
      ∃ diagnostic, ∀ name, (outputs display content).2 name = name ++ diagnostic := by
  unfold outputs
  cases (Source.mk "" content).process display with
  | ok shown => exact .inl fun _ => rfl
  | error diagnostic => exact .inr ⟨diagnostic, fun _ => rfl⟩

theorem runFile_text (path content : String) :
    (runFile display path (.ok (utf8Form content))).stdout = (outputs display content).1 ∧
      (runFile display path (.ok (utf8Form content))).stderr = (outputs display content).2 path := by
  have decoded : (Except.ok (utf8Form content)).bind decodeText = .ok content :=
    decodeText_utf8Form content
  unfold runFile outputs
  simp only [decoded]
  rw [Source.process_name]
  cases (Source.mk "" content).process display with
  | ok shown => exact ⟨rfl, rfl⟩
  | error diagnostic => exact ⟨rfl, rfl⟩

theorem answerLine_text (line : String) :
    answerLine display (utf8Form line) =
      .ok ((outputs display line).1, (outputs display line).2 inputName) := by
  unfold answerLine outputs
  rw [decodeText_utf8Form, Except.map, Source.process_name display inputName]
  cases (Source.mk "" line).process display with
  | ok shown => rfl
  | error diagnostic => rfl

/-! ## Sessions -/

/-- One line that is a text, and then the others. -/
theorem runLines_text (line : String) (lines : List (List UInt8)) :
    runLines display (utf8Form line :: lines) =
      ⟨(runLines display lines).code,
        prompt ++ (outputs display line).1 ++ (runLines display lines).stdout,
        (outputs display line).2 inputName ++ (runLines display lines).stderr⟩ := by
  rw [runLines, answerLine_text]

/-- Lines that are texts, and then others: what is written first, and then what a session on the
others alone writes. -/
theorem runLines_append {lines : List (List UInt8)} (texts : ∀ line ∈ lines, IsText line) :
    ∃ out err, ∀ others, runLines display (lines ++ others) =
      ⟨(runLines display others).code, out ++ (runLines display others).stdout,
        err ++ (runLines display others).stderr⟩ := by
  induction lines with
  | nil => exact ⟨"", "", fun others => by simp⟩
  | cons line lines ih =>
      obtain ⟨⟨text, rfl⟩, texts'⟩ := List.forall_mem_cons.1 texts
      obtain ⟨out, err, others⟩ := ih texts'
      -- a prompt and the answer to the line stand before what the rest of the lines write
      refine ⟨prompt ++ (outputs display text).1 ++ out, (outputs display text).2 inputName ++ err, ?_⟩
      intro more
      rw [List.cons_append, runLines_text, others]
      simp only [String.append_assoc]

/-- A session ends with the code 1 at the first line that is no text, and with 0 if there is
none. -/
theorem runLines_code (lines : List (List UInt8)) :
    (runLines display lines).code = 0 ∧ (∀ line ∈ lines, IsText line) ∨
      (runLines display lines).code = 1 ∧ ∃ line ∈ lines, ¬IsText line := by
  induction lines with
  | nil => exact .inl ⟨rfl, fun line mem => absurd mem List.not_mem_nil⟩
  | cons line lines ih =>
      by_cases text : IsText line
      · obtain ⟨text, rfl⟩ := text
        rw [runLines_text]
        rcases ih with ⟨code, texts⟩ | ⟨code, other, mem, none⟩
        · exact .inl ⟨code, List.forall_mem_cons.2 ⟨⟨text, rfl⟩, texts⟩⟩
        · exact .inr ⟨code, other, List.mem_cons_of_mem _ mem, none⟩
      -- the lines behind it are never answered
      · refine .inr ⟨?_, line, List.mem_cons_self, text⟩
        rw [runLines, answerLine, decodeText_of_not_isText text]
        rfl

end Answers

/-! ## The standard input -/

theorem feed_notMem {line : String} (one : '\n' ∉ line.toList) : '\n'.toUInt8 ∉ utf8Form line :=
  mt (mem_utf8Form (by decide)).1 one

/-- The lines of an input that begins with a line of text. -/
theorem inputLines_line {line : String} (one : '\n' ∉ line.toList) (others : List UInt8) :
    inputLines (utf8Form (line ++ "\n") ++ others) =
      dropReturn '\r'.toUInt8 (utf8Form line) :: inputLines others := by
  have feed : utf8Form "\n" = ['\n'.toUInt8] := rfl
  rw [utf8Form_append, feed, List.append_assoc]
  exact splitLines_cons (feed_notMem one) others

/-- The lines of an input that begins with lines of text. -/
theorem inputLines_append {lines : List String} (one : ∀ line ∈ lines, '\n' ∉ line.toList) :
    ∃ front, (∀ line ∈ front, IsText line) ∧
      ∀ others, inputLines ((lines.flatMap fun line => utf8Form (line ++ "\n")) ++ others) =
        front ++ inputLines others := by
  induction lines with
  | nil => exact ⟨[], fun line mem => absurd mem List.not_mem_nil, fun others => rfl⟩
  | cons line lines ih =>
      obtain ⟨first, one'⟩ := List.forall_mem_cons.1 one
      obtain ⟨front, texts, split⟩ := ih one'
      refine ⟨dropReturn '\r'.toUInt8 (utf8Form line) :: front,
        List.forall_mem_cons.2 ⟨isText_dropReturn.2 ⟨line, rfl⟩, texts⟩, fun others => ?_⟩
      rw [List.flatMap_cons, List.append_assoc, inputLines_line first, split, List.cons_append]

/-- What may stand behind a line of the standard input. A carriage return that the line ends in
is its own only if another one, or nothing, stands behind it. -/
def EndsLine (line ending : String) : Prop :=
  (ending = "\n" ∧ line.toList.getLast? ≠ some '\r') ∨ ending = "\r\n" ∨ (ending = "" ∧ line ≠ "")

/-- A single line, however it is ended. -/
theorem inputLines_single {line ending : String} (one : '\n' ∉ line.toList)
    (ends : EndsLine line ending) : inputLines (utf8Form (line ++ ending)) = [utf8Form line] := by
  have nothing : inputLines [] = [] := rfl
  rcases ends with ⟨rfl, bare⟩ | rfl | ⟨rfl, nonempty⟩
  · have whole := inputLines_line one []
    rw [List.append_nil, nothing] at whole
    rw [whole, dropReturn, if_neg]
    -- a byte 13 at the end would be a carriage return at the end
    intro last
    obtain ⟨front, split⟩ := List.getLast?_eq_some_iff.1 last
    obtain ⟨s, t, rfl, -, rest⟩ := utf8Form_split (by decide) split
    obtain rfl : "" = t := utf8Form_inj rest
    apply bare
    rw [String.append_empty, String.toList_append, String.toList_singleton, List.getLast?_concat]
  -- the carriage return is the end of a longer line, and is dropped from it
  · have one' : '\n' ∉ (line ++ "\r").toList := by
      rw [String.toList_append, List.mem_append]
      exact not_or.2 ⟨one, by decide⟩
    have whole := inputLines_line one' []
    have ret : utf8Form "\r" = ['\r'.toUInt8] := rfl
    rw [List.append_nil, nothing, String.append_assoc, utf8Form_append line "\r", ret] at whole
    rw [show "\r\n" = "\r" ++ "\n" from rfl, whole, dropReturn, if_pos List.getLast?_concat,
      List.dropLast_concat]
  · rw [String.append_empty]
    refine splitLines_one (feed_notMem one) ?_
    intro none
    exact nonempty (utf8Form_inj none)

/-! ## Runs -/

/-- Without a file, the command runs a session. -/
theorem runCommand_options {options : List String}
    (chosen : ∀ option ∈ options, IsDisplayOption option)
    (files : String → Except ReadError (List UInt8)) (stdin : List UInt8) :
    runCommand options files stdin =
      runLines (displayAfter .source options) (inputLines stdin) := by
  rw [runCommand, Invocation.ofArgs_options chosen]

/-- With a file, the command runs on that file. -/
theorem runCommand_file {before after : List String} {path : String}
    (chosen : ∀ option ∈ before ++ after, IsDisplayOption option)
    (proper : path.toList.head? ≠ some '-') (files : String → Except ReadError (List UInt8))
    (stdin : List UInt8) :
    runCommand (before ++ path :: after) files stdin =
      runFile (displayAfter .source (before ++ after)) path (files path) := by
  rw [runCommand, Invocation.ofArgs_file chosen proper]

/-- Sessions go line by line. With options that choose what is shown, and no file, let `session`
be the run on a standard input.

Behind lines of text that are ended, a session goes on as if it began there: its output comes in
place of the last prompt, its reports come behind the others, and its code is that of the whole.

Between two prompts, the answer to a single line is what a run with the same options on a file
with this content shows, and what it reports under the name of the standard input instead of
that of the file; the code is zero, whatever is reported.

The code of a session is one exactly if its input, and so one of its lines, is no text. -/
theorem session_line_by_line (options : List String)
    (chosen : ∀ option ∈ options, IsDisplayOption option)
    (files : String → Except ReadError (List UInt8)) :
    let session := runCommand options files
    (∀ (lines : List String) (others : List UInt8), (∀ line ∈ lines, '\n' ∉ line.toList) →
      let first := lines.flatMap fun line => utf8Form (line ++ "\n")
      ∃ out, (session first).stdout = out ++ prompt ∧
        (session (first ++ others)).stdout = out ++ (session others).stdout ∧
        (session (first ++ others)).stderr = (session first).stderr ++ (session others).stderr ∧
        (session (first ++ others)).code = (session others).code) ∧
    (∀ line ending : String, '\n' ∉ line.toList → EndsLine line ending →
      ∃ (shown : String) (report : String → String), session (utf8Form (line ++ ending)) =
          ⟨0, prompt ++ shown ++ prompt, report inputName⟩ ∧
        ((∀ name, report name = "") ∨ ∃ diagnostic, ∀ name, report name = name ++ diagnostic) ∧
        ∀ before path after directory stdin, before ++ after = options →
          path.toList.head? ≠ some '-' → directory path = .ok (utf8Form line) →
            (runCommand (before ++ path :: after) directory stdin).stdout = shown ∧
              (runCommand (before ++ path :: after) directory stdin).stderr = report path) ∧
    ∀ stdin, (session stdin).code = 0 ∧ IsText stdin ∨
      (session stdin).code = 1 ∧ ¬IsText stdin ∧ ∃ line ∈ inputLines stdin, ¬IsText line := by
  intro session
  have lineByLine (stdin : List UInt8) : session stdin = _ := runCommand_options chosen files stdin
  refine ⟨?_, ?_, ?_⟩
  · intro lines others one first
    obtain ⟨front, texts, split⟩ := inputLines_append one
    -- what is written for the first lines does not depend on the others, nor on whether there are any
    obtain ⟨out, err, run⟩ := runLines_append (displayAfter .source options) texts
    have alone : inputLines first = front := by
      have whole := split []
      rw [List.append_nil] at whole
      exact whole.trans (List.append_nil front)
    have runAlone := run []
    rw [List.append_nil] at runAlone
    refine ⟨out, ?_⟩
    rw [lineByLine, lineByLine, lineByLine, alone, runAlone, split, run]
    refine ⟨rfl, rfl, ?_, rfl⟩
    show _ = err ++ "" ++ _
    rw [String.append_empty]
  · intro line ending one ends
    refine ⟨(outputs (displayAfter .source options) line).1,
      (outputs (displayAfter .source options) line).2, ?_, outputs_name _ line, ?_⟩
    · rw [lineByLine, inputLines_single one ends, runLines_text]
      show Completion.mk 0 _ (_ ++ "") = _
      rw [String.append_empty]
      rfl
    · rintro before path after directory stdin rfl proper content
      rw [runCommand_file chosen proper, content]
      exact runFile_text _ path line
  · intro stdin
    rw [lineByLine, isText_iff_lines]
    rcases runLines_code (displayAfter .source options) (inputLines stdin) with
      ⟨code, texts⟩ | ⟨code, line, mem, none⟩
    · exact .inl ⟨code, texts⟩
    · exact .inr ⟨code, fun texts => none (texts line mem), line, mem, none⟩

/-- A line with an error and a line that is shown, each behind a prompt, and then a byte that is
no text, at which the session ends. -/
theorem session_line_by_line_tally :
    let session := runCommand ["--stats"] fun _ => .error .notFound
    let first := ["int", "int x;"].flatMap fun line => utf8Form (line ++ "\n")
    let onFile := runCommand ["a.c", "--stats"] (fun _ => .ok (utf8Form "int x;")) []
    (∃ out, (session first).stdout = out ++ prompt ∧ (session (first ++ [255])).stdout = out ++ prompt) ∧
      (session (first ++ [255])).code = 1 ∧
      ∃ report : String → String, onFile.stderr = report "a.c" ∧
        session (utf8Form ("int x;" ++ "\r\n")) =
          ⟨0, prompt ++ onFile.stdout ++ prompt, report inputName⟩ := by
  intro session first onFile
  have chosen : ∀ option ∈ ["--stats"], IsDisplayOption option :=
    List.forall_mem_singleton.2 (.inr rfl)
  obtain ⟨lines, single, -⟩ := session_line_by_line ["--stats"] chosen fun _ => .error .notFound
  have one : ∀ line ∈ ["int", "int x;"], '\n' ∉ line.toList := by decide
  have invalid : decodeText [255] = .error .notText := by cbv
  have last : session [255] = ⟨1, prompt, ReadError.report .notText⟩ := by
    rw [show session [255] = _ from runCommand_options chosen _ _]
    show runLines _ [[255]] = _
    rw [runLines, answerLine, invalid]
    rfl
  obtain ⟨out, alone, whole, -, same⟩ := lines ["int", "int x;"] [255] one
  obtain ⟨shown, report, run, -, onFile_eq⟩ :=
    single "int x;" "\r\n" (by decide) (.inr (.inl rfl))
  obtain ⟨stdout, stderr⟩ := onFile_eq [] "a.c" ["--stats"]
    (fun _ => .ok (utf8Form "int x;")) [] rfl (by decide) rfl
  refine ⟨⟨out, alone, ?_⟩, ?_, report, stderr, ?_⟩
  · exact whole.trans (congrArg (out ++ ·.stdout) last)
  · exact same.trans (congrArg Completion.code last)
  · rw [show onFile.stdout = shown from stdout]
    exact run

end ProcLang
