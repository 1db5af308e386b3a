import ProcLang.Parse.Program

/-!
# Parsing without a nesting limit

The grammar is run here with no bound on the levels that may be open. A free parser is
told how many levels are open where it begins, and it notes every level that it opens,
with the tokens ahead at that place. Nothing that it reads depends on those numbers.

The parsers of the phrases that open a level refer to each other, and the recursion ends
because at most two levels are opened before a token is consumed: a statement, and the
expression at its head. `unlimitedParsers` runs it as deep as the tokens ahead can ask for.
-/

set_option autoImplicit false

namespace ProcLang

/-- A level that was opened: its number, the outermost one being the first, and the tokens
then ahead. -/
structure LevelOpened where
  level : Nat
  ahead : List Token
deriving DecidableEq, Repr

/-- What a free parser did: its outcome, and the levels that it opened, in order. -/
structure Trace (α : Type) extends Outcome α where
  opened : List LevelOpened

/-- A free parser takes the number of levels that are open and the tokens ahead. -/
def FreeParser (α : Type) : Type :=
  Nat → List Token → Trace α

namespace FreeParser

variable {α β σ : Type}

/-- A parser that opens no level. -/
def flat (p : Parser α) : FreeParser α := fun _ ts =>
  ⟨p ts, []⟩

/-- One parser and then another; a refusal ends the whole. -/
def andThen (p : FreeParser α) (f : α → FreeParser β) : FreeParser β := fun depth ts =>
  let first := p depth ts
  match first.value with
  | none => ⟨⟨none, first.rest, first.steps⟩, first.opened⟩
  | some a =>
      let second := f a depth first.rest
      ⟨⟨second.value, second.rest, first.steps ++ second.steps⟩, first.opened ++ second.opened⟩

/-- Runs rounds from `state` until one is done, as parsers with a limit do. -/
def iterate (round : σ → FreeParser (Round σ α)) (state : σ) (depth : Nat) (ts : List Token) :
    Trace α :=
  let first := round state depth ts
  match first.value with
  | none => ⟨⟨none, first.rest, first.steps⟩, first.opened⟩
  | some (.done a) => ⟨⟨some a, first.rest, first.steps⟩, first.opened⟩
  | some (.again next) =>
      if first.rest.length < ts.length then
        let others := iterate round next depth first.rest
        ⟨⟨others.value, others.rest, first.steps ++ others.steps⟩, first.opened ++ others.opened⟩
      else ⟨⟨none, first.rest, first.steps⟩, first.opened⟩
termination_by ts.length

instance : TokenReader FreeParser where
  pure a := flat (Parser.accept a)
  bind := andThen
  refuse := flat Parser.refuse
  noteDeclaration := flat Parser.noteDeclaration
  kindAhead := flat Parser.kindAhead
  lookingAt pattern := flat (Parser.lookingAt pattern)
  advance := flat Parser.advance
  loop := iterate

/-- Opens a level, notes it, and runs a parser in it. -/
def deeper (p : FreeParser α) : FreeParser α := fun depth ts =>
  let inside := p (depth + 1) ts
  ⟨inside.toOutcome, ⟨depth + 1, ts⟩ :: inside.opened⟩

variable {p : FreeParser α} {f : α → FreeParser β} {depth : Nat} {ts : List Token}

/-- Where the first parser refuses, so does the sequence. -/
theorem bind_none (h : (p depth ts).value = none) :
    (p >>= f) depth ts =
      ⟨⟨none, (p depth ts).rest, (p depth ts).steps⟩, (p depth ts).opened⟩ := by
  show andThen p f depth ts = _
  simp only [andThen, h]

/-- Where the first parser succeeds, the second goes on behind it. -/
theorem bind_some {a : α} (h : (p depth ts).value = some a) :
    (p >>= f) depth ts =
      ⟨⟨(f a depth (p depth ts).rest).value, (f a depth (p depth ts).rest).rest,
          (p depth ts).steps ++ (f a depth (p depth ts).rest).steps⟩,
        (p depth ts).opened ++ (f a depth (p depth ts).rest).opened⟩ := by
  show andThen p f depth ts = _
  simp only [andThen, h]

end FreeParser

/-- The parsers of the phrases that open a level, made from those of the phrases inside
them, each with its level opened and no question whether there is one left. -/
def Nested.opening (inner : Nested FreeParser) : Nested FreeParser :=
  ⟨fun least => .deeper (inner.operatorExpr least), .deeper inner.unaryExpr,
    .deeper inner.statement⟩

/-- The first `n` unfoldings of the recursion; below them whatever comes is refused. -/
def unfoldedParsers : Nat → Nested FreeParser
  | 0 => ⟨fun _ => TokenReader.refuse, TokenReader.refuse, TokenReader.refuse⟩
  | n + 1 => (unfoldedParsers n).opening

/-- The parsers of the phrases that open a level, with no limit: the recursion, unfolded
as often as the tokens ahead can ask for. -/
def unlimitedParsers : Nested FreeParser :=
  ⟨fun least depth ts => (unfoldedParsers (2 * ts.length + 2)).operand least depth ts,
    fun depth ts => (unfoldedParsers (2 * ts.length + 2)).unary depth ts,
    fun depth ts => (unfoldedParsers (2 * ts.length + 2)).stmt depth ts⟩

namespace TokenStream

/-- The run of the unlimited parser over the declarations of a stream. -/
def traceProgram (stream : TokenStream) : Trace Program :=
  unlimitedParsers.program 0 stream.ahead

/-- Reads declarations to the end of the stream, however deep they are nested. -/
def readProgramFreely : TokenStream → Reading Program :=
  Parser.read fun ts => (unlimitedParsers.program 0 ts).toOutcome

variable {stream : TokenStream}

theorem readProgramFreely_left :
    stream.readProgramFreely.left = ⟨stream.traceProgram.rest, stream.finish⟩ :=
  Parser.read_left _ stream

theorem readProgramFreely_eq_ok {u : Program} :
    stream.readProgramFreely.result = .ok u ↔ stream.traceProgram.value = some u :=
  Parser.read_result_eq_ok

end TokenStream

end ProcLang
