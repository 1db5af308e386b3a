import ProcLang.Lexical.Tokenize
import ProcLang.Parse.Basic
import ProcLang.Parse.Grammar

/-!
# Parsing from a token stream

The entry points of the parser. Each takes a stream and gives a reading: the tree or
the syntax error, the stream that is left, and the steps taken. What is left can be
read on, after a success and after an error alike.
-/

set_option autoImplicit false

namespace ProcLang

/-- How many nesting levels a source may open at once. -/
def nestingLimit : Nat := 256

/-- The parsers for phrases that may open `n` nesting levels. With no level left they
refuse whatever comes; with one more they are built from those with one less. -/
def nestedParsers : Nat → Nested Parser
  | 0 => ⟨fun _ => Parser.refuse, Parser.refuse, Parser.refuse⟩
  | n + 1 =>
      let inner := nestedParsers n
      ⟨inner.operatorExpr, inner.unaryExpr, inner.statement⟩

/-- What one call of a parser gives: a value or a syntax error, the stream left for
later calls, and the steps taken. -/
structure Reading (α : Type) where
  result : Except SyntaxError α
  left : TokenStream
  steps : List Step

namespace Parser

variable {α : Type}

/-- Runs a parser on a stream. A refusal becomes the error of the token at which the
parser stopped; the end marker stays in place. -/
def read (p : Parser α) (stream : TokenStream) : Reading α :=
  let outcome := p stream.ahead
  let left : TokenStream := ⟨outcome.rest, stream.finish⟩
  match outcome.value with
  | some a => ⟨.ok a, left, outcome.steps⟩
  | none => ⟨.error left.unexpected, left, outcome.steps⟩

theorem read_left (p : Parser α) (stream : TokenStream) :
    (p.read stream).left = ⟨(p stream.ahead).rest, stream.finish⟩ := by
  unfold read
  cases hvalue : (p stream.ahead).value with
  | none => simp only [hvalue]
  | some a => simp only [hvalue]

theorem read_steps (p : Parser α) (stream : TokenStream) :
    (p.read stream).steps = (p stream.ahead).steps := by
  unfold read
  cases hvalue : (p stream.ahead).value with
  | none => simp only [hvalue]
  | some a => simp only [hvalue]

theorem read_result_eq_ok {p : Parser α} {stream : TokenStream} {a : α} :
    (p.read stream).result = .ok a ↔ (p stream.ahead).value = some a := by
  unfold read
  cases hvalue : (p stream.ahead).value with
  | none => simp [hvalue]
  | some b => simp [hvalue]

/-- The error of a reading is that of the token at which it stopped. -/
theorem read_result_eq_error {p : Parser α} {stream : TokenStream} {e : SyntaxError} :
    (p.read stream).result = .error e ↔
      (p stream.ahead).value = none ∧ e = (p.read stream).left.unexpected := by
  unfold read
  cases hvalue : (p stream.ahead).value with
  | none => simp [hvalue, eq_comm]
  | some b => simp [hvalue]

end Parser

namespace TokenStream

/-- Reads declarations to the end of the stream, at most `limit` levels deep. -/
def readProgramWithin (limit : Nat) : TokenStream → Reading Program :=
  (nestedParsers limit).program.read

/-- Reads one top-level declaration, at most `limit` levels deep. -/
def readDeclWithin (limit : Nat) : TokenStream → Reading Decl :=
  (nestedParsers limit).declaration.read

/-- Reads one statement, at most `limit` levels deep. -/
def readStmtWithin (limit : Nat) : TokenStream → Reading Stmt :=
  (nestedParsers limit).stmt.read

/-- Reads one expression, at most `limit` levels deep. -/
def readExprWithin (limit : Nat) : TokenStream → Reading Expr :=
  (nestedParsers limit).expr.read

/-- Reads declarations to the end of the stream. -/
def readProgram : TokenStream → Reading Program :=
  readProgramWithin nestingLimit

/-- Reads one top-level declaration. -/
def readDecl : TokenStream → Reading Decl :=
  readDeclWithin nestingLimit

/-- Reads one statement. -/
def readStmt : TokenStream → Reading Stmt :=
  readStmtWithin nestingLimit

/-- Reads one expression. -/
def readExpr : TokenStream → Reading Expr :=
  readExprWithin nestingLimit

end TokenStream

/-- The tree of a source text, or its first error: a lexical error anywhere in the
text comes before every syntactic one. -/
def parseSource (source : String) : Except SyntaxError Program := do
  let tokens ← tokenize source
  (TokenStream.ofTokens tokens).readProgram.result

end ProcLang
