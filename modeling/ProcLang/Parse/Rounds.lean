import ProcLang.Parse.Machine

/-!
# Machines that do not watch their loops

A machine refuses a round that asks for another and has consumed no token, and so each of its
loops ends. A run has no such test: a loop goes on as long as its rounds ask for it. What is counted
instead is through how many rounds a loop has gone, and how many phrases are being read inside each
other. A run that needs more of either than it is given is cut off without a result. So what comes
to an end at all does so if it is given enough, and what does not is cut off whatever it is given.
-/

set_option autoImplicit false

namespace ProcLang

/-- A run on a vector of tokens takes a place and gives what a machine gives, unless it is cut off
because a loop asks for more than `rounds` rounds. -/
def Run (_vector : List Token) (_rounds : Nat) (α : Type) : Type :=
  Cursor → Option (Except Halt α × Cursor)

namespace Run

variable {vector : List Token} {rounds : Nat} {α β σ : Type}

/-- A run that does what a machine does. -/
def plain (p : Machine vector α) : Run vector rounds α := fun cursor =>
  some (p cursor)

/-- A run that is cut off at once. -/
def cutOff : Run vector rounds α := fun _ =>
  none

/-- One run and then another; the first to halt or to be cut off ends the whole. -/
def andThen (p : Run vector rounds α) (f : α → Run vector rounds β) : Run vector rounds β :=
  fun cursor =>
    match p cursor with
    | none => none
    | some (.ok a, next) => f a next
    | some (.error reason, next) => some (.error reason, next)

/-- Goes through rounds from `state` until one is done, and through no more than `left`. -/
def iterate (round : σ → Run vector rounds (Round σ α)) : Nat → σ → Run vector rounds α
  | 0, _ => cutOff
  | left + 1, state => fun cursor =>
      match round state cursor with
      | none => none
      | some (.error reason, next) => some (.error reason, next)
      | some (.ok (.done a), next) => some (.ok a, next)
      | some (.ok (.again state'), next) => iterate round left state' next

instance : TokenReader (Run vector rounds) where
  pure a := plain (Machine.accept a)
  bind := andThen
  refuse := plain Machine.refuse
  noteDeclaration := plain Machine.noteDeclaration
  kindAhead := plain Machine.kindAhead
  lookingAt pattern := plain (Machine.lookingAt pattern)
  advance := plain Machine.advance
  loop round state := iterate round rounds state

variable {p : Run vector rounds α} {f : α → Run vector rounds β} {cursor next : Cursor}

theorem bind_ok {a : α} (h : p cursor = some (.ok a, next)) : (p >>= f) cursor = f a next := by
  show andThen p f cursor = _
  simp only [andThen, h]

theorem bind_error {reason : Halt} (h : p cursor = some (.error reason, next)) :
    (p >>= f) cursor = some (.error reason, next) := by
  show andThen p f cursor = _
  simp only [andThen, h]

/-- Runs one level deeper. With `limit` levels open the current token is refused; otherwise the
level is closed again when the run ends or halts. -/
def deeper (limit : Nat) (p : Run vector rounds α) : Run vector rounds α := fun cursor =>
  if limit ≤ cursor.depth then some ((Machine.refuse : Machine vector α) cursor)
  else
    (p ⟨cursor.position, cursor.depth + 1⟩).map fun (result, next) =>
      (result, ⟨next.position, next.depth - 1⟩)

end Run

/-- The runs for phrases that open a level, where at most `calls` of them are read inside each
other. The levels are counted by the place, and compared with `limit`. -/
def nestedRuns (vector : List Token) (rounds limit : Nat) : Nat → Nested (Run vector rounds)
  | 0 => ⟨fun _ => Run.cutOff, Run.cutOff, Run.cutOff⟩
  | calls + 1 =>
      let inner := nestedRuns vector rounds limit calls
      ⟨fun least => .deeper limit (inner.operatorExpr least), .deeper limit inner.unaryExpr,
        .deeper limit inner.statement⟩

/-- Reads the requested phrase. -/
def Run.answer (vector : List Token) (rounds calls : Nat) (request : Request) :
    Run vector rounds Phrase :=
  let inner := nestedRuns vector rounds nestingLimit calls
  match request with
  | .program => return .program (← inner.program)
  | .decl => return .decl (← inner.declaration)
  | .stmt => return .stmt (← inner.stmt)
  | .expr => return .expr (← inner.expr)

end ProcLang
