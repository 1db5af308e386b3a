import ProcLang.Parse.Reader
import ProcLang.Token.Basic

/-!
# Parsers over a list of tokens

A parser takes the tokens ahead and gives an outcome: a value or a refusal, the
tokens that are left, and the steps it took. A refusal needs no more than its place:
it always means that the token then current was not expected. Nothing is ever put
back, so the tokens left are always an end part of the tokens given.
-/

set_option autoImplicit false

namespace ProcLang

/-- What a parser did, in order: it came to a top-level declaration while `current`
was the next token, or it consumed a token. -/
inductive Step where
  | declaration (current : Option Token)
  | advance (token : Token)
deriving DecidableEq, Repr

/-- The end of a parse: the value, or `none` if the first token of `rest` (or the end
of the input, if `rest` is empty) was refused; the tokens left; the steps taken. -/
structure Outcome (α : Type) where
  value : Option α
  rest : List Token
  steps : List Step

/-- A parser reads from the front of the tokens ahead. -/
def Parser (α : Type) : Type :=
  List Token → Outcome α

/-- The kind of the first of the tokens ahead; behind the last one is the end. -/
def headKind (ts : List Token) : TokenKind :=
  match ts with
  | [] => .endOfInput
  | t :: _ => t.kind

namespace Parser

variable {α β σ : Type}

/-- Success without reading. -/
def accept (a : α) : Parser α := fun ts =>
  ⟨some a, ts, []⟩

/-- Refusal of the current token. -/
def refuse : Parser α := fun ts =>
  ⟨none, ts, []⟩

/-- One parser and then another; a refusal ends the whole. -/
def andThen (p : Parser α) (f : α → Parser β) : Parser β := fun ts =>
  let first := p ts
  match first.value with
  | none => ⟨none, first.rest, first.steps⟩
  | some a =>
      let second := f a first.rest
      ⟨second.value, second.rest, first.steps ++ second.steps⟩

/-- Records that a top-level declaration begins at the current token. -/
def noteDeclaration : Parser Unit := fun ts =>
  ⟨some (), ts, [.declaration ts.head?]⟩

/-- The kind of the current token. -/
def kindAhead : Parser TokenKind := fun ts =>
  ⟨some (headKind ts), ts, []⟩

/-- Whether the kinds of the tokens ahead begin with `pattern`. -/
def lookingAt (pattern : List TokenKind) : Parser Bool := fun ts =>
  ⟨some ((ts.take pattern.length).map (·.kind) == pattern), ts, []⟩

/-- Consumes the current token and gives its text. The end is refused, not consumed. -/
def advance : Parser String := fun ts =>
  match ts with
  | [] => ⟨none, ts, []⟩
  | t :: rest => ⟨some t.text, rest, [.advance t]⟩

/-- Runs rounds from `state` until one is done. A round that asks for another has
consumed at least one token; one that has not is refused, so the loop ends with the
tokens. -/
def iterate (round : σ → Parser (Round σ α)) (state : σ) (ts : List Token) : Outcome α :=
  let first := round state ts
  match first.value with
  | none => ⟨none, first.rest, first.steps⟩
  | some (.done a) => ⟨some a, first.rest, first.steps⟩
  | some (.again next) =>
      if first.rest.length < ts.length then
        let others := iterate round next first.rest
        ⟨others.value, others.rest, first.steps ++ others.steps⟩
      else ⟨none, first.rest, first.steps⟩
termination_by ts.length

instance : TokenReader Parser where
  pure := accept
  bind := andThen
  refuse := refuse
  noteDeclaration := noteDeclaration
  kindAhead := kindAhead
  lookingAt := lookingAt
  advance := advance
  loop := iterate

variable {p : Parser α} {f : α → Parser β} {ts : List Token}

/-- Where the first parser refuses, so does the sequence. -/
theorem bind_none (h : (p ts).value = none) :
    (p >>= f) ts = ⟨none, (p ts).rest, (p ts).steps⟩ := by
  show andThen p f ts = _
  simp only [andThen, h]

/-- Where the first parser succeeds, the second goes on behind it. -/
theorem bind_some {a : α} (h : (p ts).value = some a) :
    (p >>= f) ts = ⟨(f a (p ts).rest).value, (f a (p ts).rest).rest,
      (p ts).steps ++ (f a (p ts).rest).steps⟩ := by
  show andThen p f ts = _
  simp only [andThen, h]

end Parser

end ProcLang
