import Mathlib
import ProcLang.Proofs.Command.Sessions

/-!
# What a run of the command comes to

Arguments are read from left to right, and the first one that asks for help or cannot be used
decides the run, before any file or the standard input is read (`Misused`, `command_outcome`). What
has been chosen by the arguments read so far is told from these arguments alone: the display by the
last option for one, the file by the only argument that names one (`Invocation.behind`). One more
argument ends the reading, or takes the choice of those before it to the choice of those up to it.
-/

set_option autoImplicit false

namespace ProcLang

/-! ## Arguments -/

/-- The options that ask for help. -/
def IsHelpOption (arg : String) : Prop :=
  arg = "-h" ∨ arg = "--help"

/-- Everything that does not begin with a hyphen names a file. -/
def NamesFile (arg : String) : Prop :=
  arg.toList.head? ≠ some '-'

/-- An argument that begins with a hyphen and is none of the options. -/
def IsUnknownOption (arg : String) : Prop :=
  arg.toList.head? = some '-' ∧ ¬IsDisplayOption arg ∧ ¬IsHelpOption arg

instance : DecidablePred IsDisplayOption := fun _ =>
  inferInstanceAs (Decidable (_ ∨ _))

instance : DecidablePred IsHelpOption := fun _ =>
  inferInstanceAs (Decidable (_ ∨ _))

instance : DecidablePred NamesFile := fun _ =>
  inferInstanceAs (Decidable (_ ≠ _))

/-- An argument that cannot be used behind others: an unknown option, or a second file. -/
def IsUnusable (before : List String) (arg : String) : Prop :=
  IsUnknownOption arg ∨ NamesFile arg ∧ ∃ other ∈ before, NamesFile other

/-- Some argument cannot be used, and no option before it asks for help. -/
def Misused (args : List String) : Prop :=
  ∃ before arg after, args = before ++ arg :: after ∧ (∀ other ∈ before, ¬IsHelpOption other) ∧
    IsUnusable before arg

/-- The display that the last option for one chooses. -/
def chosenDisplay (args : List String) : Display :=
  match (args.filter (IsDisplayOption ·)).getLast? with
  | none => .source
  | some option => if option = "--ast" then .tree else .tally

theorem chosenDisplay_option {arg : String} (option : IsDisplayOption arg) (before : List String) :
    chosenDisplay (before ++ [arg]) = if arg = "--ast" then .tree else .tally := by
  simp [chosenDisplay, option]

theorem chosenDisplay_other {arg : String} (other : ¬IsDisplayOption arg) (before : List String) :
    chosenDisplay (before ++ [arg]) = chosenDisplay before := by
  simp [chosenDisplay, other]

/-- The options begin with a hyphen, and a file does not. -/
theorem NamesFile.not_option {arg : String} (file : NamesFile arg) :
    ¬IsDisplayOption arg ∧ ¬IsHelpOption arg := by
  have other {option : String} (h : option.toList.head? = some '-') : arg ≠ option :=
    fun same => file (same ▸ h)
  exact ⟨not_or.2 ⟨other rfl, other rfl⟩, not_or.2 ⟨other rfl, other rfl⟩⟩

/-! ## Misuse -/

section Misuse

variable {before args : List String} {arg : String}

theorem IsUnusable.not_help (unusable : IsUnusable before arg) : ¬IsHelpOption arg := by
  rcases unusable with ⟨-, -, notHelp⟩ | ⟨file, -⟩
  · exact notHelp
  · exact file.not_option.2

/-- Two arguments of one list: the first is before the second, or it is the second, or it is
behind it. -/
theorem append_cons_cases {after front rest : List String} {other : String}
    (same : before ++ arg :: after = front ++ other :: rest) :
    (∃ between, front = before ++ arg :: between) ∨ (front = before ∧ other = arg) ∨
      ∃ between, before = front ++ other :: between := by
  rcases List.append_eq_append_iff.1 same with ⟨between, rfl, tail⟩ | ⟨between, rfl, tail⟩
  all_goals
    cases between with
    | nil =>
        obtain ⟨rfl, -⟩ := List.cons.inj tail
        exact .inr (.inl ⟨by simp, rfl⟩)
    | cons first between =>
        obtain ⟨rfl, -⟩ := List.cons.inj tail
        simp

/-- Behind arguments that can be used, an option for help decides. -/
theorem not_misused_help (usable : ¬Misused before) (help : IsHelpOption arg)
    (after : List String) : ¬Misused (before ++ arg :: after) := by
  rintro ⟨front, other, rest, split, noHelp, unusable⟩
  rcases append_cons_cases split with ⟨between, rfl⟩ | ⟨-, rfl⟩ | ⟨between, rfl⟩
  · exact noHelp arg (List.mem_append_right _ List.mem_cons_self) help
  · exact unusable.not_help help
  · exact usable ⟨front, other, between, rfl, noHelp, unusable⟩

/-- Behind arguments that can be used, one more can be used. -/
theorem not_misused_concat (usable : ¬Misused before) (proper : ¬IsUnusable before arg) :
    ¬Misused (before ++ [arg]) := by
  rintro ⟨front, other, rest, split, noHelp, unusable⟩
  rcases append_cons_cases split with ⟨between, rfl⟩ | ⟨rfl, rfl⟩ | ⟨between, rfl⟩
  · simp at split
  · exact proper unusable
  · exact usable ⟨front, other, between, rfl, noHelp, unusable⟩

/-- If no argument asks for help and all can be used, at most one names a file. -/
theorem find?_file {path : String} (noHelp : ∀ other ∈ args, ¬IsHelpOption other)
    (usable : ¬Misused args) (mem : path ∈ args) (file : NamesFile path) :
    args.find? (NamesFile ·) = some path := by
  obtain ⟨first, found⟩ : ∃ first, args.find? (NamesFile ·) = some first :=
    Option.isSome_iff_exists.1 (List.find?_isSome.2 ⟨path, mem, decide_eq_true file⟩)
  obtain ⟨firstFile, front, rest, rfl, others⟩ := List.find?_eq_some_iff_append.1 found
  obtain ⟨between, after, split⟩ := List.append_of_mem mem
  rcases append_cons_cases split with ⟨middle, rfl⟩ | ⟨-, rfl⟩ | ⟨middle, rfl⟩
  · -- then it is a second file
    have earlier : ∃ other ∈ front ++ first :: middle, NamesFile other :=
      ⟨first, by simp, by simpa using firstFile⟩
    refine absurd ⟨_, path, after, split, ?_, .inr ⟨file, earlier⟩⟩ usable
    intro other mem
    apply noHelp
    rw [split]
    exact List.mem_append_left _ mem
  · exact found
  · exact absurd file (by simpa using others path (by simp))

end Misuse

/-! ## Invocations -/

namespace Invocation

/-- The first of the remaining arguments, whatever has been chosen before it. -/
theorem ofArgsFrom_cons (display : Display) (file : Option String) (arg : String)
    (args : List String) :
    ofArgsFrom display file (arg :: args) =
      if arg = "--ast" then ofArgsFrom .tree file args
      else if arg = "--stats" then ofArgsFrom .tally file args
      else if IsHelpOption arg then .help
      else if arg.toList.head? = some '-' then .unknownOption arg
      else
        match file with
        | some _ => .surplusFile
        | none => ofArgsFrom display (some arg) args :=
  rfl

/-- What the remaining arguments come to behind some that have decided nothing. -/
def behind (before args : List String) : Invocation :=
  ofArgsFrom (chosenDisplay before) (before.find? (NamesFile ·)) args

section Steps

variable {before : List String} {arg : String} (args : List String)

theorem behind_help (help : IsHelpOption arg) : behind before (arg :: args) = .help := by
  have other : ¬IsDisplayOption arg := by
    rcases help with rfl | rfl
    · exact not_or.2 ⟨by decide, by decide⟩
    · exact not_or.2 ⟨by decide, by decide⟩
  obtain ⟨notTree, notTally⟩ := not_or.1 other
  rw [behind, ofArgsFrom_cons, if_neg notTree, if_neg notTally, if_pos help]

theorem behind_unknown (unknown : IsUnknownOption arg) :
    behind before (arg :: args) = .unknownOption arg := by
  obtain ⟨hyphen, notDisplay, notHelp⟩ := unknown
  obtain ⟨notTree, notTally⟩ := not_or.1 notDisplay
  rw [behind, ofArgsFrom_cons, if_neg notTree, if_neg notTally, if_neg notHelp, if_pos hyphen]

/-- A file is a second one, or it is taken. -/
theorem behind_file (file : NamesFile arg) :
    behind before (arg :: args) =
      match before.find? (NamesFile ·) with
      | some _ => .surplusFile
      | none => ofArgsFrom (chosenDisplay before) (some arg) args := by
  obtain ⟨notDisplay, notHelp⟩ := file.not_option
  obtain ⟨notTree, notTally⟩ := not_or.1 notDisplay
  rw [behind, ofArgsFrom_cons, if_neg notTree, if_neg notTally, if_neg notHelp, if_neg file]

/-- An argument that cannot be used ends the reading. -/
theorem behind_unusable (unusable : IsUnusable before arg) :
    behind before (arg :: args) = .unknownOption arg ∨
      behind before (arg :: args) = .surplusFile := by
  rcases unusable with unknown | ⟨file, earlier⟩
  · exact .inl (behind_unknown args unknown)
  · have found : (before.find? (NamesFile ·)).isSome = true := by
      simpa using earlier
    obtain ⟨first, found⟩ := Option.isSome_iff_exists.1 found
    refine .inr ?_
    rw [behind_file args file, found]

/-- Any other argument is one more of those that have decided nothing. -/
theorem behind_usable (notHelp : ¬IsHelpOption arg) (usable : ¬IsUnusable before arg) :
    behind before (arg :: args) = behind (before ++ [arg]) args := by
  obtain ⟨known, noSecond⟩ := not_or.1 usable
  by_cases option : IsDisplayOption arg
  · have files : (before ++ [arg]).find? (NamesFile ·) = before.find? (NamesFile ·) := by
      have noFile : ¬NamesFile arg := fun file => file.not_option.1 option
      simp [List.find?_append, noFile]
    rw [behind, behind, chosenDisplay_option option, files]
    rcases option with rfl | rfl
    · rw [ofArgsFrom_cons, if_pos rfl, if_pos rfl]
    · rw [ofArgsFrom_cons, if_neg (by decide), if_pos rfl, if_neg (by decide)]
  · have file : NamesFile arg := fun hyphen => known ⟨hyphen, option, notHelp⟩
    have first : before.find? (NamesFile ·) = none := by
      simpa using fun other mem otherFile => noSecond ⟨file, other, mem, otherFile⟩
    rw [behind_file args file, behind, chosenDisplay_other option, List.find?_append, first]
    simp [file]

end Steps

/-- Arguments are misused, or they ask for help, or all of them choose what is run. -/
theorem behind_cases (before args : List String) (noHelp : ∀ other ∈ before, ¬IsHelpOption other)
    (usable : ¬Misused before) :
    (Misused (before ++ args) ∧
        ((∃ flag, behind before args = .unknownOption flag) ∨
          behind before args = .surplusFile)) ∨
      (¬Misused (before ++ args) ∧ (∃ arg ∈ before ++ args, IsHelpOption arg) ∧
        behind before args = .help) ∨
      (¬Misused (before ++ args) ∧ (∀ arg ∈ before ++ args, ¬IsHelpOption arg) ∧
        behind before args =
          .run (chosenDisplay (before ++ args)) ((before ++ args).find? (NamesFile ·))) := by
  induction args generalizing before with
  | nil =>
      rw [List.append_nil]
      exact .inr (.inr ⟨usable, noHelp, rfl⟩)
  | cons arg args ih =>
      by_cases help : IsHelpOption arg
      · exact .inr (.inl ⟨not_misused_help usable help args,
          ⟨arg, List.mem_append_right _ List.mem_cons_self, help⟩, behind_help args help⟩)
      by_cases unusable : IsUnusable before arg
      · refine .inl ⟨⟨before, arg, args, rfl, noHelp, unusable⟩, ?_⟩
        rcases behind_unusable args unusable with unknown | surplus
        · exact .inl ⟨arg, unknown⟩
        · exact .inr surplus
      · have noHelp' : ∀ other ∈ before ++ [arg], ¬IsHelpOption other := by
          intro other mem
          rcases List.mem_append.1 mem with earlier | last
          · exact noHelp other earlier
          · exact List.mem_singleton.1 last ▸ help
        have further := ih (before ++ [arg]) noHelp' (not_misused_concat usable unusable)
        rwa [List.append_assoc, List.singleton_append, ← behind_usable args help unusable]
          at further

end Invocation

/-! ## Runs on a file -/

/-- What a program is shown as: its source, laid out anew; its tree, with one item a line; or its
tally. -/
inductive Display.Shows : Display → Program → String → Prop where
  | source (p : Program) : Shows .source p p.print
  | tree (p : Program) : Shows .tree p (p.dump.indented 0 ++ "\n")
  | tally (p : Program) : Shows .tally p (p.tally.report ++ "\n")

theorem Display.shows_render (display : Display) (p : Program) :
    display.Shows p (display.render p) := by
  cases display with
  | source => exact .source p
  | tree => exact .tree p
  | tally => exact .tally p

/-- Why nothing of a file can be shown: it cannot be read, it holds no text, or the text is no
program. -/
def Unreadable (content : Except ReadError (List UInt8)) : Prop :=
  (∃ e, content = .error e) ∨ (∃ bytes, content = .ok bytes ∧ ¬IsText bytes) ∨
    ∃ text e, content = .ok (utf8Form text) ∧ parseSource text = .error e

/-- What is read as a text cannot be shown only because of an error in it. -/
theorem unreadable_text {text : String} :
    Unreadable (.ok (utf8Form text)) ↔ ∃ e, parseSource text = .error e := by
  constructor
  · rintro (⟨e, content⟩ | ⟨bytes, content, noText⟩ | ⟨text', e, content, refused⟩)
    · cases content
    · exact absurd ⟨text, (Except.ok.inj content).symm⟩ noText
    · obtain rfl : text = text' := utf8Form_inj (Except.ok.inj content)
      exact ⟨e, refused⟩
  · rintro ⟨e, refused⟩
    exact .inr (.inr ⟨text, e, rfl, refused⟩)

theorem append_ne_empty {s : String} (nonempty : s ≠ "") (t : String) : s ++ t ≠ "" := by
  intro empty
  exact nonempty (String.append_eq_empty_iff.1 empty).1

theorem ReadError.report_ne_empty (e : ReadError) : e.report ≠ "" := by
  refine append_ne_empty (append_ne_empty ?_ _) _
  decide

theorem Source.render_ne_empty (s : Source) (e : SyntaxError) : s.render e ≠ "" := by
  intro empty
  have ended := (String.append_eq_empty_iff.1 empty).2
  exact absurd ended (by decide)

/-- A run on a file shows the program in it, or reports why it cannot. -/
theorem runFile_cases (display : Display) (path : String)
    (content : Except ReadError (List UInt8)) :
    (∃ text program shown, content = .ok (utf8Form text) ∧ parseSource text = .ok program ∧
        display.Shows program shown ∧ runFile display path content = ⟨0, shown, ""⟩) ∨
      (Unreadable content ∧ ∃ report, report ≠ "" ∧
        runFile display path content = ⟨1, "", report⟩) := by
  cases content with
  | error e => exact .inr ⟨.inl ⟨e, rfl⟩, e.report, e.report_ne_empty, rfl⟩
  | ok bytes =>
      have decoded : (Except.ok bytes).bind decodeText = decodeText bytes := rfl
      by_cases isText : IsText bytes
      · obtain ⟨text, rfl⟩ := isText
        rw [decodeText_utf8Form] at decoded
        cases parsed : parseSource text with
        | ok program =>
            refine .inl ⟨text, program, display.render program, rfl, parsed,
              display.shows_render program, ?_⟩
            simp only [runFile, decoded, Source.process, parsed]
        | error e =>
            refine .inr ⟨unreadable_text.2 ⟨e, parsed⟩, (Source.mk path text).render e,
              Source.render_ne_empty _ e, ?_⟩
            simp only [runFile, decoded, Source.process, parsed]
      · rw [decodeText_of_not_isText isText] at decoded
        refine .inr ⟨.inr (.inl ⟨bytes, rfl, isText⟩), ReadError.notText.report,
          ReadError.notText.report_ne_empty, ?_⟩
        simp only [runFile, decoded]

/-- It never does both. -/
theorem runFile_xor (display : Display) (path : String)
    (content : Except ReadError (List UInt8)) :
    Xor
      (∃ text program shown, content = .ok (utf8Form text) ∧ parseSource text = .ok program ∧
        display.Shows program shown ∧ runFile display path content = ⟨0, shown, ""⟩)
      (Unreadable content ∧ ∃ report, report ≠ "" ∧
        runFile display path content = ⟨1, "", report⟩) := by
  have apart {shown report : String} : (⟨0, shown, ""⟩ : Completion) ≠ ⟨1, "", report⟩ := by
    intro same
    exact Nat.zero_ne_one (congrArg Completion.code same)
  rcases runFile_cases display path content with shown | refused
  · refine .inl ⟨shown, ?_⟩
    obtain ⟨_, _, _, -, -, -, shown⟩ := shown
    rintro ⟨-, _, -, refused⟩
    exact apart (shown.symm.trans refused)
  · refine .inr ⟨refused, ?_⟩
    obtain ⟨-, _, -, refused⟩ := refused
    rintro ⟨_, _, _, -, -, -, shown⟩
    exact apart (shown.symm.trans refused)

theorem runFile_code (display : Display) (path : String)
    (content : Except ReadError (List UInt8)) :
    (runFile display path content).code = 0 ∨ (runFile display path content).code = 1 := by
  rcases runFile_cases display path content with
    ⟨_, _, _, -, -, -, shown⟩ | ⟨-, _, -, refused⟩
  · exact .inl (congrArg Completion.code shown)
  · exact .inr (congrArg Completion.code refused)

/-! ## Runs of the command -/

/-- Arguments decide a run, or they choose what is run. -/
theorem runCommand_cases (args : List String) :
    (Misused args ∧ ∃ report, ∀ files stdin, runCommand args files stdin = ⟨2, "", report⟩) ∨
      (¬Misused args ∧ (∃ arg ∈ args, IsHelpOption arg) ∧
        ∀ files stdin, runCommand args files stdin =
          ⟨0, "Usage: cinder [--ast | --stats] [FILE]\n", ""⟩) ∨
      (¬Misused args ∧ (∀ arg ∈ args, ¬IsHelpOption arg) ∧
        ∀ files stdin, runCommand args files stdin =
          match args.find? (NamesFile ·) with
          | some path => runFile (chosenDisplay args) path (files path)
          | none => runLines (chosenDisplay args) (inputLines stdin)) := by
  have nothing : ¬Misused [] := by
    rintro ⟨before, arg, after, split, -⟩
    exact absurd split.symm (List.append_ne_nil_of_right_ne_nil _ (List.cons_ne_nil _ _))
  have read : Invocation.ofArgs args = Invocation.behind [] args := rfl
  rcases Invocation.behind_cases [] args (fun _ mem => absurd mem List.not_mem_nil) nothing with
    ⟨misused, invocation⟩ | ⟨usable, help, invocation⟩ | ⟨usable, noHelp, invocation⟩
  · refine .inl ⟨misused, ?_⟩
    rcases invocation with ⟨flag, unknown⟩ | surplus
    · refine ⟨"Error: unknown option '" ++ flag ++ "'\n" ++ usage ++ "\n", fun files stdin => ?_⟩
      rw [runCommand, read, unknown]
    · refine ⟨usage ++ "\n", fun files stdin => ?_⟩
      rw [runCommand, read, surplus]
  · have line : usage ++ "\n" = "Usage: cinder [--ast | --stats] [FILE]\n" := by decide
    refine .inr (.inl ⟨usable, help, fun files stdin => ?_⟩)
    rw [runCommand, read, invocation, ← line]
  · refine .inr (.inr ⟨usable, noHelp, fun files stdin => ?_⟩)
    rw [runCommand, read, invocation, List.nil_append]
    cases args.find? (NamesFile ·) with
    | none => rfl
    | some path => rfl

/-- The outcome of every run of the command, on arguments that are Unicode texts. Its code is 0, 1
or 2, and it is 2 exactly if the arguments are misused: an unknown option or a second file comes
before any option for help. Then nothing goes to the standard output; and then, as where help is
asked for, with the usage on the standard output and nothing else, neither the files nor the
standard input make a difference.

In all other runs with a file the standard input makes no difference, and exactly one of two things
happens. Either the file holds a program, and this is shown as the last option for a display
chooses, wherever it stands, with code 0 and nothing else; or it cannot be read, holds no text, or
holds one with an error, and something is reported, with code 1 and nothing else. -/
theorem command_outcome (args : List String) (files : String → Except ReadError (List UInt8))
    (stdin : List UInt8) :
    let outcome := runCommand args files stdin
    (outcome.code = 0 ∨ outcome.code = 1 ∨ outcome.code = 2) ∧
    (outcome.code = 2 ↔ Misused args) ∧
    (Misused args → outcome.stdout = "" ∧
      ∀ files' stdin', runCommand args files' stdin' = outcome) ∧
    (¬Misused args → (∃ arg ∈ args, IsHelpOption arg) →
      ∀ files' stdin', runCommand args files' stdin' =
        ⟨0, "Usage: cinder [--ast | --stats] [FILE]\n", ""⟩) ∧
    (¬Misused args → (∀ arg ∈ args, ¬IsHelpOption arg) → ∀ path ∈ args, NamesFile path →
      (∀ stdin', runCommand args files stdin' = outcome) ∧
      Xor
        (∃ text program shown, files path = .ok (utf8Form text) ∧
          parseSource text = .ok program ∧ (chosenDisplay args).Shows program shown ∧
          outcome = ⟨0, shown, ""⟩)
        (Unreadable (files path) ∧ ∃ report, report ≠ "" ∧ outcome = ⟨1, "", report⟩)) := by
  intro outcome
  rcases runCommand_cases args with
    ⟨misused, report, run⟩ | ⟨usable, help, run⟩ | ⟨usable, noHelp, run⟩
  · have code : outcome.code = 2 := by rw [show outcome = _ from run files stdin]
    refine ⟨.inr (.inr code), iff_of_true code misused, fun _ => ⟨?_, fun files' stdin' => ?_⟩,
      fun usable => absurd misused usable, fun usable => absurd misused usable⟩
    · rw [show outcome = _ from run files stdin]
    · rw [run, show outcome = _ from run files stdin]
  · have code : outcome.code = 0 := by rw [show outcome = _ from run files stdin]
    have other : outcome.code ≠ 2 := by omega
    refine ⟨.inl code, iff_of_false other usable, fun misused => absurd misused usable,
      fun _ _ => run, fun _ noHelp => ?_⟩
    obtain ⟨arg, mem, helps⟩ := help
    exact absurd helps (noHelp arg mem)
  · have low : outcome.code = 0 ∨ outcome.code = 1 := by
      rw [show outcome = _ from run files stdin]
      cases args.find? (NamesFile ·) with
      | some path => exact runFile_code _ path (files path)
      | none =>
          rcases runLines_code (chosenDisplay args) (inputLines stdin) with ⟨code, -⟩ | ⟨code, -⟩
          · exact .inl code
          · exact .inr code
    have other : outcome.code ≠ 2 := by omega
    refine ⟨low.imp_right .inl, iff_of_false other usable, fun misused => absurd misused usable,
      fun _ help => ?_, fun _ _ path mem file => ?_⟩
    · obtain ⟨arg, mem, helps⟩ := help
      exact absurd helps (noHelp arg mem)
    · have onFile (stdin' : List UInt8) : runCommand args files stdin' =
          runFile (chosenDisplay args) path (files path) := by
        rw [run, find?_file noHelp usable mem file]
      refine ⟨fun stdin' => (onFile stdin').trans (onFile stdin).symm, ?_⟩
      rw [show outcome = _ from onFile stdin]
      exact runFile_xor (chosenDisplay args) path (files path)

/-- The program of the source `int x;`. -/
def oneVariable : Program :=
  ⟨[.var ⟨"int", [⟨.plain "x", none⟩]⟩]⟩

set_option maxRecDepth 100000 in
/-- A display that is chosen behind the file counts, a help option counts before an unknown one, and
an unknown one before a help option. -/
theorem command_outcome_last_flag :
    let files : String → Except ReadError (List UInt8) := fun _ => .ok (utf8Form "int x;")
    (∀ stdin, runCommand ["a.c"] files stdin = ⟨0, "int x;\n", ""⟩) ∧
    (∀ stdin, runCommand ["--ast", "a.c", "--stats"] files stdin =
      ⟨0, "functions:  0\nprototypes: 0\nvariables:  1\nstatements: 0\ncalls:      0\n", ""⟩) ∧
    (∀ stdin, runCommand ["--stats", "a.c", "--ast"] files stdin =
      ⟨0, "TranslationUnit \x7b\n    declarations: [\n        Var(\n            VarDecl \x7b\n" ++
        "                ty: \"int\",\n                declarators: [\n" ++
        "                    InitDeclarator \x7b\n                        declarator: NoPtr(\n" ++
        "                            \"x\",\n                        ),\n" ++
        "                        initializer: None,\n                    \x7d,\n" ++
        "                ],\n            \x7d,\n        ),\n    ],\n\x7d\n", ""⟩) ∧
    (∀ files' stdin, runCommand ["a.c", "-h", "-x"] files' stdin =
      ⟨0, "Usage: cinder [--ast | --stats] [FILE]\n", ""⟩) ∧
    ∀ files' stdin, (runCommand ["a.c", "-x", "--help"] files' stdin).code = 2 := by
  intro files
  have parsed : parseSource "int x;" = .ok oneVariable := by cbv
  -- what the file is shown as decides the outcome, if the arguments do not
  have onFile {args : List String} {display : Display} {shown : String}
      (shows : ∀ text, display.Shows oneVariable text → text = shown)
      (run : ∀ stdin, runCommand args files stdin = runFile display "a.c" (files "a.c"))
      (chosen : chosenDisplay args = display) (noHelp : ∀ arg ∈ args, ¬IsHelpOption arg)
      (mem : "a.c" ∈ args) (stdin : List UInt8) :
      runCommand args files stdin = ⟨0, shown, ""⟩ := by
    obtain ⟨-, two, -, -, outcome⟩ := command_outcome args files stdin
    have usable : ¬Misused args := by
      intro misused
      have code := two.2 misused
      rw [run] at code
      have low := runFile_code display "a.c" (files "a.c")
      omega
    obtain ⟨-, ⟨⟨text, program, shown', content, read, showsIt, whole⟩, -⟩ |
      ⟨⟨unreadable, -⟩, -⟩⟩ := outcome usable noHelp "a.c" mem (by decide)
    · obtain rfl : "int x;" = text := utf8Form_inj (Except.ok.inj content)
      obtain rfl : oneVariable = program := Except.ok.inj (parsed.symm.trans read)
      rw [chosen] at showsIt
      rw [whole, shows shown' showsIt]
    · obtain ⟨e, refused⟩ := unreadable_text.1 unreadable
      rw [parsed] at refused
      cases refused
  refine ⟨?_, ?_, ?_, fun files' stdin => ?_, fun files' stdin => ?_⟩
  · refine onFile ?_ (fun _ => rfl) (by decide) (by decide) (by decide)
    rintro _ ⟨⟩
    decide
  · refine onFile ?_ (fun _ => rfl) (by decide) (by decide) (by decide)
    rintro _ ⟨⟩
    decide
  · refine onFile ?_ (fun _ => rfl) (by decide) (by decide) (by decide)
    rintro _ ⟨⟩
    decide +kernel
  · obtain ⟨-, two, -, help, -⟩ := command_outcome ["a.c", "-h", "-x"] files' stdin
    refine help ?_ ⟨"-h", by decide, by decide⟩ files' stdin
    intro misused
    cases two.2 misused
  · obtain ⟨-, two, -⟩ := command_outcome ["a.c", "-x", "--help"] files' stdin
    refine two.2 ⟨["a.c"], "-x", ["--help"], rfl, by decide, .inl ⟨by decide, ?_, ?_⟩⟩
    · exact not_or.2 ⟨by decide, by decide⟩
    · exact not_or.2 ⟨by decide, by decide⟩

end ProcLang
