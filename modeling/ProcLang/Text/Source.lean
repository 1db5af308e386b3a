import ProcLang.Text.Position
import ProcLang.Token.Basic

/-!
# Named sources and their diagnostics

A source is a text with the name under which errors in it are reported. A diagnostic
gives the place and the description of an error, the line it stands on, and a row of
carets under the offending text.
-/

set_option autoImplicit false

namespace ProcLang

/-- A source text and its name, usually a file path. -/
structure Source where
  name : String
  content : String

namespace Source

/-- A source without a name of its own. -/
def unnamed (content : String) : Source :=
  ⟨"<input>", content⟩

/-- The position of a byte offset. -/
def position (s : Source) (offset : Nat) : Position :=
  Position.first.afterBytes offset s.content.toList

/-- The line with a given number, counted from one; empty if there is none. -/
def line (s : Source) (number : Nat) : List Char :=
  ((splitLines '\n' '\r' s.content.toList)[number - 1]?).getD []

/-- A number with blanks before it, at least four characters wide. -/
def lineLabel (number : Nat) : List Char :=
  let digits := (Nat.repr number).toList
  List.replicate (4 - digits.length) ' ' ++ digits

/-- The row under the shown line: blanks up to `column`, and then one caret for each
character of the offending text, but at least one. -/
def caretRow (column : Nat) (text : String) : List Char :=
  List.replicate (column - 1) ' ' ++ List.replicate (max 1 text.length) '^'

/-- The diagnostic of an error: a line with place and description, the line of the
source, and the row of carets. -/
def render (s : Source) (e : SyntaxError) : String :=
  let place := s.position e.span.start
  s.name ++ ":" ++ Nat.repr place.line ++ ":" ++ Nat.repr place.column ++
    ": error: " ++ e.message ++ "\n" ++
  String.ofList (lineLabel place.line) ++ " | " ++ String.ofList (s.line place.line) ++ "\n" ++
  "     | " ++ String.ofList (caretRow place.column e.text) ++ "\n"

end Source

end ProcLang
