import ProcLang.Parse.Compatible

/-!
# The steps account for the tokens consumed

Whatever a parser of the language does, on success and on refusal, the tokens of its
`advance` steps followed by the tokens left are the tokens given. So nothing is put
back, skipped or invented, and the tokens left are an end part of the tokens given.
-/

set_option autoImplicit false

namespace ProcLang

/-- The token that a step consumed. -/
def Step.consumed? : Step → Option Token
  | declaration _ => none
  | advance token => some token

/-- The tokens consumed on the way to an outcome. -/
def Outcome.consumed {α : Type} (o : Outcome α) : List Token :=
  o.steps.filterMap Step.consumed?

/-- What is done in two parts consumes what the parts consume. -/
theorem Outcome.consumed_append {α β γ : Type} (first : Outcome α) (second : Outcome β)
    (value : Option γ) (rest : List Token) :
    (Outcome.mk value rest (first.steps ++ second.steps)).consumed =
      first.consumed ++ second.consumed :=
  List.filterMap_append

namespace Parser

variable {α : Type}

/-- The tokens consumed and the tokens left are the tokens given. -/
def Accounts (p : Parser α) : Prop :=
  ∀ ts, (p ts).consumed ++ (p ts).rest = ts

/-- The tokens left are an end part of the tokens given. -/
theorem Accounts.rest_isSuffix {p : Parser α} (h : p.Accounts) (ts : List Token) :
    (p ts).rest <:+ ts :=
  ⟨(p ts).consumed, h ts⟩

/-- Fewer tokens are left exactly if some are consumed. -/
theorem Accounts.shorter_iff {p : Parser α} (h : p.Accounts) (ts : List Token) :
    (p ts).rest.length < ts.length ↔ 0 < (p ts).consumed.length := by
  have lengths := congrArg List.length (h ts)
  rw [List.length_append] at lengths
  omega

/-- A sequence consumes what its parts consume. -/
theorem bind_consumed {β : Type} {p : Parser α} {f : α → Parser β} {ts : List Token} {a : α}
    (h : (p ts).value = some a) :
    ((p >>= f) ts).consumed = (p ts).consumed ++ (f a (p ts).rest).consumed := by
  rw [bind_some h]
  exact Outcome.consumed_append _ _ _ _

theorem Accounts.bind {β : Type} {p : Parser α} {f : α → Parser β} (hp : p.Accounts)
    (hf : ∀ a, (f a).Accounts) : (p >>= f).Accounts := by
  intro ts
  have head := hp ts
  cases hvalue : (p ts).value with
  | none =>
      rw [bind_none hvalue]
      exact head
  | some a =>
      have tail := hf a (p ts).rest
      rw [bind_consumed hvalue, bind_some hvalue, List.append_assoc, tail, head]

theorem Accounts.loop {σ : Type} {round : σ → Parser (Round σ α)}
    (hround : ∀ s, (round s).Accounts) (s : σ) :
    (TokenReader.loop round s : Parser α).Accounts := by
  intro ts
  show (iterate round s ts).consumed ++ (iterate round s ts).rest = ts
  fun_induction iterate round s ts with
  | case1 s ts first hvalue => exact hround s ts
  | case2 s ts first a hvalue => exact hround s ts
  | case3 s ts first next hvalue shorter others tail =>
      have head := hround s ts
      rw [Outcome.consumed_append, List.append_assoc, tail]
      exact head
  | case4 s ts first next hvalue stuck => exact hround s ts

theorem accounts_advance : advance.Accounts := by
  intro ts
  cases ts with
  | nil => rfl
  | cons t ts => rfl

theorem Accounts.choose {β : Type} {accepts : TokenKind → Option β}
    {taken : β → String → Parser α} {otherwise : Parser α}
    (htaken : ∀ b text, (taken b text).Accounts) (hotherwise : otherwise.Accounts) :
    (TokenReader.choose accepts taken otherwise).Accounts := by
  refine Accounts.bind (fun _ => rfl) fun kind => ?_
  cases accepts kind with
  | none => exact hotherwise
  | some b => exact accounts_advance.bind (htaken b)

/-- Every way of reading accounts for the tokens it consumes. -/
theorem accounts_compatible :
    @Compatible Parser Parser _ _ fun _ p _ => p.Accounts :=
  Primitive.compatible
    { pure := fun _ _ => rfl
      refuse := fun _ => rfl
      kindAhead := fun _ => rfl
      noteDeclaration := fun _ => rfl
      lookingAt := fun _ _ _ => rfl
      bind := Accounts.bind
      choose := fun _ => Accounts.choose
      loop := Accounts.loop }

end Parser

end ProcLang
