import ProcLang.Parse.Session

/-!
# A parser as a place in a vector of tokens

A machine keeps the whole vector of tokens and stands at a place in it: the index of the
current token and the number of levels that are open. It reads by index, so it could
read behind the vector, and it opens and closes levels by counting, so it could leave
one open. The grammar is run on machines by the same definitions as on lists of tokens.
-/

set_option autoImplicit false

namespace ProcLang

/-- Where a machine stands: the index of the current token, and how many levels are
open. -/
structure Cursor where
  position : Nat
  depth : Nat
deriving DecidableEq, Repr

/-- The place at which a new machine stands. -/
def Cursor.start : Cursor := ⟨0, 0⟩

/-- Why a machine gives no value: it refused the current token, it read behind the
vector, or it was built for fewer levels than it opened. -/
inductive Halt where
  | unexpected (error : SyntaxError)
  | outOfBounds
  | exhausted
deriving DecidableEq, Repr

/-- A machine on a vector of tokens takes a place and gives a value, or the reason why
there is none, and the next place. -/
def Machine (_ : List Token) (α : Type) : Type :=
  Cursor → Except Halt α × Cursor

namespace Machine

variable {vector : List Token} {α β σ : Type}

/-- Success without reading. -/
def accept (a : α) : Machine vector α := fun cursor =>
  (.ok a, cursor)

/-- Halting in place. -/
def halt (reason : Halt) : Machine vector α := fun cursor =>
  (.error reason, cursor)

/-- One machine and then another; the first to halt ends the whole. -/
def andThen (p : Machine vector α) (f : α → Machine vector β) : Machine vector β := fun cursor =>
  match p cursor with
  | (.ok a, next) => f a next
  | (.error reason, next) => (.error reason, next)

instance : Monad (Machine vector) where
  pure := accept
  bind := andThen

theorem bind_ok {p : Machine vector α} {f : α → Machine vector β} {cursor next : Cursor} {a : α}
    (h : p cursor = (.ok a, next)) : (p >>= f) cursor = f a next := by
  show andThen p f cursor = _
  simp only [andThen, h]

theorem bind_error {p : Machine vector α} {f : α → Machine vector β} {cursor next : Cursor}
    {reason : Halt} (h : p cursor = (.error reason, next)) :
    (p >>= f) cursor = (.error reason, next) := by
  show andThen p f cursor = _
  simp only [andThen, h]

/-- The current token, read by its index. -/
def current : Machine vector Token := fun cursor =>
  match vector[cursor.position]? with
  | some t => (.ok t, cursor)
  | none => (.error .outOfBounds, cursor)

/-- Refuses the current token. -/
def refuse : Machine vector α := do
  let t ← current
  halt (.unexpected ⟨t.text, t.span⟩)

/-- Notes that a top-level declaration begins at the current token. -/
def noteDeclaration : Machine vector Unit := do
  let _ ← current
  return ()

/-- The kind of the current token. -/
def kindAhead : Machine vector TokenKind := do
  return (← current).kind

/-- Whether the kinds of the tokens from the current one on begin with `pattern`. There
is no match behind the vector. -/
def lookingAt (pattern : List TokenKind) : Machine vector Bool := fun cursor =>
  (.ok (pattern.zipIdx.all fun (kind, i) =>
    vector[cursor.position + i]?.any (·.kind == kind)), cursor)

/-- Consumes the current token and gives its text. The end marker is not consumed. -/
def advance : Machine vector String := fun cursor =>
  match vector[cursor.position]? with
  | none => (.error .outOfBounds, cursor)
  | some t =>
      (.ok t.text, if t.kind = .endOfInput then cursor else ⟨cursor.position + 1, cursor.depth⟩)

/-- Runs rounds from `state` until one is done. A round that asks for another without
having consumed a token of the vector is refused. -/
def iterate (round : σ → Machine vector (Round σ α)) (state : σ) (cursor : Cursor) :
    Except Halt α × Cursor :=
  match round state cursor with
  | (.error reason, next) => (.error reason, next)
  | (.ok (.done a), next) => (.ok a, next)
  | (.ok (.again state'), next) =>
      if vector.length - next.position < vector.length - cursor.position then
        iterate round state' next
      else (refuse : Machine vector α) next
termination_by vector.length - cursor.position

instance : TokenReader (Machine vector) where
  refuse := refuse
  noteDeclaration := noteDeclaration
  kindAhead := kindAhead
  lookingAt := lookingAt
  advance := advance
  loop := iterate

/-- Runs a machine one level deeper. With `limit` levels open the current token is
refused; otherwise the level is closed again when the machine ends or halts. -/
def deeper (limit : Nat) (p : Machine vector α) : Machine vector α := fun cursor =>
  if limit ≤ cursor.depth then (refuse : Machine vector α) cursor
  else
    let (result, next) := p ⟨cursor.position, cursor.depth + 1⟩
    (result, ⟨next.position, next.depth - 1⟩)

end Machine

/-- The machines for phrases that open a level. `n` bounds the recursion, which halts
where it is not enough; the levels are counted by the place. -/
def nestedMachines (vector : List Token) (limit : Nat) : Nat → Nested (Machine vector)
  | 0 =>
      let stopped {α : Type} : Machine vector α := Machine.halt .exhausted
      ⟨fun _ => stopped, stopped, stopped⟩
  | n + 1 =>
      let inner := nestedMachines vector limit n
      ⟨fun least => .deeper limit (inner.operatorExpr least), .deeper limit inner.unaryExpr,
        .deeper limit inner.statement⟩

/-- What is put behind the tokens: an end marker where the last one stops, or at
`fallback` if there are none; nothing if the last one is an end marker. -/
def closingMarker (fallback : Nat) (tokens : List Token) : List Token :=
  match tokens.getLast? with
  | none => [Token.endAt fallback]
  | some t => if t.kind = .endOfInput then [] else [Token.endAt t.span.stop]

/-- The vector of a machine: the tokens, closed by an end marker. Other end markers stay
where they are. -/
def closeTokens (tokens : List Token) : List Token :=
  tokens ++ closingMarker 0 tokens

namespace Machine

variable (vector : List Token)

/-- Reads the requested phrase. -/
def answer (request : Request) : Machine vector Phrase :=
  let inner := nestedMachines vector nestingLimit (nestingLimit + 1)
  match request with
  | .program => return .program (← inner.program)
  | .decl => return .decl (← inner.declaration)
  | .stmt => return .stmt (← inner.stmt)
  | .expr => return .expr (← inner.expr)

/-- The place after a sequence of requests, each answered from the place where the one
before it ended, well or not. -/
def cursorAfter (requests : List Request) : Cursor :=
  requests.foldl (fun cursor request => (answer vector request cursor).2) .start

end Machine

end ProcLang
