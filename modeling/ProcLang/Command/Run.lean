import ProcLang.Command.Arguments
import ProcLang.Parse.Program
import ProcLang.Text.Source
import ProcLang.Tree.Dump
import ProcLang.Tree.Layout
import ProcLang.Tree.Tally

/-!
# Running the command

One run of the command: what it writes and the code it ends with, as a function of its
arguments, the files and the standard input. A file is the bytes that are read at a path, or
the error of reading there. With a file the command reads it as one program; without one it
reads every line of the standard input as a program of its own, behind a prompt.
-/

set_option autoImplicit false

namespace ProcLang

/-- What a run writes to its two streams, and its exit code. -/
structure Completion where
  code : Nat
  stdout : String
  stderr : String
deriving DecidableEq, Repr

/-- The line that tells how the command is used. -/
def usage : String := "Usage: cinder [--ast | --stats] [FILE]"

/-- What stands before each line of an interactive session. -/
def prompt : String := "> "

/-- The name under which errors in a line of the standard input are reported. -/
def inputName : String := "<stdin>"

/-- Why a text could not be read: the system gave an error, with a code, the name of its kind and a
description, there was no room for the text, or the bytes are no text. -/
inductive ReadError where
  | system (code : Int) (kind description : String)
  | outOfMemory
  | notText
deriving DecidableEq, Repr

namespace ReadError

/-- The error of a path that leads to nothing. -/
def notFound : ReadError :=
  .system 2 "NotFound" "No such file or directory"

/-- The description of a read error. -/
def message : ReadError → String
  | system code kind description =>
      "Os \x7b code: " ++ code.repr ++ ", kind: " ++ kind ++ ", message: " ++
        quote description ++ " \x7d"
  | outOfMemory => "Kind(OutOfMemory)"
  | notText =>
      "Error \x7b kind: InvalidData, message: \"stream did not contain valid UTF-8\" \x7d"

end ReadError

/-- The line that reports a text that could not be read. -/
def ReadError.report (e : ReadError) : String :=
  "Error: " ++ e.message ++ "\n"

/-- What is shown of a program. -/
def Display.render : Display → Program → String
  | source, p => p.print
  | tree, p => p.dump.indented 0 ++ "\n"
  | tally, p => p.tally.report ++ "\n"

/-- Reads a source and shows it, or renders its first error. -/
def Source.process (display : Display) (s : Source) : Except String String :=
  match parseSource s.content with
  | .ok p => .ok (display.render p)
  | .error e => .error (s.render e)

/-- The text of a sequence of bytes, if they are the UTF-8 form of one. -/
def decodeText (bytes : List UInt8) : Except ReadError String :=
  match String.fromUTF8? ⟨bytes.toArray⟩ with
  | some text => .ok text
  | none => .error .notText

/-- A run on one file. -/
def runFile (display : Display) (path : String) (content : Except ReadError (List UInt8)) :
    Completion :=
  match content.bind decodeText with
  | .error e => ⟨1, "", e.report⟩
  | .ok text =>
      match (Source.mk path text).process display with
      | .ok shown => ⟨0, shown, ""⟩
      | .error diagnostic => ⟨1, "", diagnostic⟩

/-- The answer to one line of an interactive session: what it adds to the two streams,
or the reason for which the line could not be read. -/
def answerLine (display : Display) (line : List UInt8) : Except ReadError (String × String) :=
  (decodeText line).map fun text =>
    match (Source.mk inputName text).process display with
    | .ok shown => (shown, "")
    | .error diagnostic => ("", diagnostic)

/-- A run on the lines of the standard input. A prompt comes before each line and before
the end of the input is noticed; errors in a program do not end the session. -/
def runLines (display : Display) : List (List UInt8) → Completion
  | [] => ⟨0, prompt, ""⟩
  | line :: lines =>
      match answerLine display line with
      | .error e => ⟨1, prompt, e.report⟩
      | .ok (out, err) =>
          let rest := runLines display lines
          ⟨rest.code, prompt ++ out ++ rest.stdout, err ++ rest.stderr⟩

/-- The lines of the standard input, as bytes. -/
def inputLines (stdin : List UInt8) : List (List UInt8) :=
  splitLines '\n'.toUInt8 '\r'.toUInt8 stdin

/-- A run of the command with the given arguments, files and standard input. -/
def runCommand (args : List String) (files : String → Except ReadError (List UInt8))
    (stdin : List UInt8) : Completion :=
  match Invocation.ofArgs args with
  | .help => ⟨0, usage ++ "\n", ""⟩
  | .unknownOption flag =>
      ⟨2, "", "Error: unknown option '" ++ flag ++ "'\n" ++ usage ++ "\n"⟩
  | .surplusFile => ⟨2, "", usage ++ "\n"⟩
  | .run display (some path) => runFile display path (files path)
  | .run display none => runLines display (inputLines stdin)

end ProcLang
