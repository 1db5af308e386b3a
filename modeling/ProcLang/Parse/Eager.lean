import ProcLang.Parse.Compatible

/-!
# The end is never consumed

A parser over a list of tokens refuses to consume the end of the input. An eager parser has no
such guard: it is given the end marker, and where it is told to consume it, it notes the marker
as it notes any other token, gives its text, and stays in place. On the grammar the two do the
same (`readProgramEagerly_eq`), because no phrase consumes a token whose kind it has not seen to be
another. So where a log of a parse names no end marker, no guard has kept it out.
-/

set_option autoImplicit false

namespace ProcLang

/-- An eager parser takes the end marker and the tokens ahead of it. -/
def Eager (α : Type) : Type :=
  Token → Parser α

namespace Eager

variable {α β σ : Type}

/-- Consumes the current token, or the end marker in place, and gives its text. -/
def advance : Eager String := fun finish ts =>
  match ts with
  | [] => ⟨some finish.text, [], [.advance finish]⟩
  | t :: rest => ⟨some t.text, rest, [.advance t]⟩

instance : TokenReader Eager where
  pure a := fun _ => Parser.accept a
  bind p f := fun finish => Parser.andThen (p finish) fun a => f a finish
  refuse := fun _ => Parser.refuse
  noteDeclaration := fun _ => Parser.noteDeclaration
  kindAhead := fun _ => Parser.kindAhead
  lookingAt pattern := fun _ => Parser.lookingAt pattern
  advance := advance
  loop round state := fun finish => Parser.iterate (fun s => round s finish) state

/-- The eager parser does what the other does, whatever the end marker is. -/
def Agrees (p : Eager α) (q : Parser α) : Prop :=
  ∀ finish, p finish = q

namespace Agrees

/-- Where the first parts agree, and what follows agrees behind them, so do the wholes. -/
theorem bind_at {p : Eager α} {q : Parser α} {f : α → Eager β} {g : α → Parser β}
    {finish : Token} {ts : List Token} (first : p finish ts = q ts)
    (next : ∀ a, (q ts).value = some a → f a finish (q ts).rest = g a (q ts).rest) :
    (p >>= f) finish ts = (q >>= g) ts := by
  show Parser.andThen (p finish) (fun a => f a finish) ts = (q >>= g) ts
  have first' : (p finish ts).value = (q ts).value := congrArg Outcome.value first
  cases hvalue : (q ts).value with
  | none =>
      rw [Parser.bind_none hvalue, ← first]
      exact Parser.bind_none (first'.trans hvalue)
  | some a =>
      rw [Parser.bind_some hvalue, ← next a hvalue, ← first]
      exact Parser.bind_some (first'.trans hvalue)

theorem bind {p : Eager α} {q : Parser α} {f : α → Eager β} {g : α → Parser β}
    (hp : Agrees p q) (hf : ∀ a, Agrees (f a) (g a)) : Agrees (p >>= f) (q >>= g) :=
  fun finish => funext fun ts =>
    bind_at (congrFun (hp finish) ts) fun a _ => congrFun (hf a finish) _

/-- A kind is accepted before its token is consumed, and the end marker never is. -/
theorem choose {accepts : TokenKind → Option β} {taken : β → String → Eager α}
    {taken' : β → String → Parser α} {otherwise : Eager α} {otherwise' : Parser α}
    (proper : accepts .endOfInput = none) (htaken : ∀ b text, Agrees (taken b text) (taken' b text))
    (hotherwise : Agrees otherwise otherwise') :
    Agrees (TokenReader.choose accepts taken otherwise)
      (TokenReader.choose accepts taken' otherwise') := by
  intro finish
  funext ts
  apply bind_at rfl
  intro kind ahead
  obtain rfl : headKind ts = kind := Option.some.inj ahead
  cases haccepts : accepts (headKind ts) with
  | none => exact congrFun (hotherwise finish) ts
  | some b =>
      -- there is a token ahead, and both consume it
      cases ts with
      | nil => exact absurd (proper.symm.trans haccepts) (Option.some_ne_none b).symm
      | cons t ts => exact bind_at rfl fun text _ => congrFun (htaken b text finish) _

theorem loop {round : σ → Eager (Round σ α)} {round' : σ → Parser (Round σ α)}
    (hround : ∀ s, Agrees (round s) (round' s)) (s : σ) :
    Agrees (TokenReader.loop round s) (TokenReader.loop round' s) := by
  intro finish
  have same : (fun s => round s finish) = round' := funext fun s => hround s finish
  show Parser.iterate (fun s => round s finish) s = Parser.iterate round' s
  rw [same]

end Agrees

/-- All ways of reading agree. -/
theorem agrees_compatible : @Compatible Eager Parser _ _ fun _ p q => Agrees p q :=
  Primitive.compatible
    { pure := fun _ _ => rfl
      refuse := fun _ => rfl
      kindAhead := fun _ => rfl
      noteDeclaration := fun _ => rfl
      lookingAt := fun _ _ _ => rfl
      bind := Agrees.bind
      choose := Agrees.choose
      loop := Agrees.loop }

end Eager

/-- The eager parsers for phrases that may open `n` nesting levels. -/
def eagerParsers : Nat → Nested Eager
  | 0 => ⟨fun _ => TokenReader.refuse, TokenReader.refuse, TokenReader.refuse⟩
  | n + 1 =>
      let inner := eagerParsers n
      ⟨inner.operatorExpr, inner.unaryExpr, inner.statement⟩

theorem eagerParsers_related (n : Nat) :
    Nested.Related (fun _ p q => Eager.Agrees p q) (eagerParsers n) (nestedParsers n) := by
  induction n with
  | zero => exact ⟨fun _ _ => rfl, fun _ => rfl, fun _ => rfl⟩
  | succ n ih =>
      have h := Eager.agrees_compatible.toComposable
      exact ⟨h.operatorExpr ih, h.unaryExpr ih, h.statement ih⟩

/-- Reads declarations to the end of the stream, and would log the end marker if it were ever
to consume it. -/
def TokenStream.readProgramEagerly (stream : TokenStream) : Reading Program :=
  ((eagerParsers nestingLimit).program stream.finish).read stream

/-- The guard that keeps the end from being consumed is never needed. -/
theorem readProgramEagerly_eq (stream : TokenStream) :
    stream.readProgramEagerly = stream.readProgram := by
  unfold TokenStream.readProgramEagerly
  rw [Eager.agrees_compatible.program (eagerParsers_related nestingLimit) stream.finish]
  rfl

end ProcLang
