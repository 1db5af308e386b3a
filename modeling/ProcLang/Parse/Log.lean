import ProcLang.Parse.Program

/-!
# The log of a parse

The events that reading a source text gives rise to, in order: one when the text has
been split into tokens, one where each top-level declaration begins, and one for each
token consumed. Positions count the tokens consumed before.
-/

set_option autoImplicit false

namespace ProcLang

/-- The importance of an event. -/
inductive Level where
  | debug
  | trace
deriving DecidableEq, Repr

/-- A log event. -/
inductive Event where
  | lexed (tokens : Nat)
  | declaration (position : Nat) (text : String)
  | advance (position : Nat) (kind : TokenKind) (text : String)
deriving DecidableEq, Repr

namespace Event

/-- Single tokens are logged at the finer level. -/
def level : Event → Level
  | lexed _ | declaration _ _ => .debug
  | advance _ _ _ => .trace

/-- The events of a sequence of steps that begins at `position` in a stream closed by
`finish`, whose text stands for a missing current token. -/
def ofSteps (finish : Token) (position : Nat) : List Step → List Event
  | [] => []
  | .declaration current :: steps =>
      .declaration position (current.getD finish).text :: ofSteps finish position steps
  | .advance token :: steps =>
      .advance position token.kind token.text :: ofSteps finish (position + 1) steps

end Event

/-- The events of reading a source text, and what `parseSource` gives for it. A text
with a lexical error has no event. -/
def parseLogged (source : String) : List Event × Except SyntaxError Program :=
  match tokenize source with
  | .error e => ([], .error e)
  | .ok tokens =>
      let stream := TokenStream.ofTokens tokens
      let reading := stream.readProgram
      (.lexed tokens.length :: Event.ofSteps stream.finish 0 reading.steps, reading.result)

end ProcLang
