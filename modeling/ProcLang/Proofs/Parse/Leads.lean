import ProcLang.Parse.Program

/-!
# Where a parser leads

`p.Leads ts good stuck` says what the parser `p` does with the tokens `ts`: if it
succeeds, its value and the tokens left are `good`, and if it refuses, the tokens left
are `stuck`. Every way of reading has one lemma that computes it, sequence and loop
included, so that a statement about a parser is proved by following its text.

`p.Yields ts a rest` is the case of a success with a known value and known tokens left.
-/

set_option autoImplicit false

namespace ProcLang

@[simp] theorem headKind_nil : headKind [] = .endOfInput := rfl

@[simp] theorem headKind_cons (t : Token) (ts : List Token) : headKind (t :: ts) = t.kind := rfl

/-- A current token of a proper kind is a token ahead. -/
theorem eq_cons_of_headKind {ts : List Token} {kind : TokenKind} (h : headKind ts = kind)
    (proper : kind ≠ .endOfInput) : ∃ t rest, ts = t :: rest ∧ t.kind = kind := by
  cases ts with
  | nil => exact absurd h.symm proper
  | cons t rest => exact ⟨t, rest, rfl, h⟩

namespace Parser

open TokenReader

variable {α β σ : Type}

/-- What a parser does with the tokens `ts`: a success is `good` for the value and the
tokens left, a refusal is `stuck` for the tokens left. -/
def Leads (p : Parser α) (ts : List Token) (good : α → List Token → Prop)
    (stuck : List Token → Prop) : Prop :=
  match (p ts).value with
  | some a => good a (p ts).rest
  | none => stuck (p ts).rest

variable {ts rest : List Token} {good : α → List Token → Prop} {stuck : List Token → Prop}

/-- What a parser does may be described more coarsely. -/
theorem Leads.mono {p : Parser α} {good' : α → List Token → Prop} {stuck' : List Token → Prop}
    (h : p.Leads ts good stuck) (hgood : ∀ a r, good a r → good' a r)
    (hstuck : ∀ r, stuck r → stuck' r) : p.Leads ts good' stuck' := by
  unfold Leads at h ⊢
  cases hvalue : (p ts).value with
  | none => rw [hvalue] at h; exact hstuck _ h
  | some a => rw [hvalue] at h; exact hgood a _ h

theorem leads_pure {a : α} : (pure a : Parser α).Leads ts good stuck ↔ good a ts := Iff.rfl

theorem leads_kindAhead {good : TokenKind → List Token → Prop} :
    (TokenReader.kindAhead : Parser TokenKind).Leads ts good stuck ↔ good (headKind ts) ts :=
  Iff.rfl

theorem leads_noteDeclaration {good : Unit → List Token → Prop} :
    (TokenReader.noteDeclaration : Parser Unit).Leads ts good stuck ↔ good () ts := Iff.rfl

theorem leads_lookingAt {pattern : List TokenKind} {good : Bool → List Token → Prop} :
    (TokenReader.lookingAt pattern : Parser Bool).Leads ts good stuck ↔
      good ((ts.take pattern.length).map (·.kind) == pattern) ts := Iff.rfl

theorem leads_bind {p : Parser β} {f : β → Parser α} :
    (p >>= f).Leads ts good stuck ↔
      p.Leads ts (fun b r => (f b).Leads r good stuck) stuck := by
  unfold Leads
  cases hvalue : (p ts).value with
  | none => rw [bind_none hvalue]
  | some b => rw [bind_some hvalue]

/-- A choice takes an accepted token and goes on behind it, or goes on in place. -/
theorem leads_choose {accepts : TokenKind → Option β} {taken : β → String → Parser α}
    {otherwise : Parser α} (proper : accepts .endOfInput = none) :
    (choose accepts taken otherwise).Leads ts good stuck ↔
      (∀ t r b, ts = t :: r → accepts t.kind = some b →
        (taken b t.text).Leads r good stuck) ∧
      (accepts (headKind ts) = none → otherwise.Leads ts good stuck) := by
  unfold choose
  rw [leads_bind, leads_kindAhead]
  cases ts with
  | nil =>
      rw [headKind_nil, proper]
      simp
  | cons t r =>
      rw [headKind_cons]
      cases haccepts : accepts t.kind with
      | none =>
          refine ⟨fun h => ⟨?_, fun _ => h⟩, fun h => h.2 rfl⟩
          rintro t' r' b heq hb
          obtain ⟨rfl, rfl⟩ := List.cons.inj heq
          rw [haccepts] at hb
          exact absurd hb (by simp)
      | some b =>
          rw [leads_bind]
          constructor
          · intro h
            refine ⟨?_, by simp⟩
            rintro t' r' b' heq hb'
            obtain ⟨rfl, rfl⟩ := List.cons.inj heq
            obtain rfl : b = b' := Option.some.inj (haccepts ▸ hb')
            exact h
          · intro h
            exact h.1 t r b rfl haccepts

theorem only_self (kind : TokenKind) : only kind kind = some () :=
  if_pos rfl

theorem only_eq_some {wanted kind : TokenKind} {u : Unit} :
    only wanted kind = some u ↔ kind = wanted := by
  unfold only
  by_cases h : kind = wanted <;> simp [h]

theorem only_eq_none {wanted kind : TokenKind} : only wanted kind = none ↔ kind ≠ wanted := by
  unfold only
  by_cases h : kind = wanted <;> simp [h]

theorem only_end {wanted : TokenKind} (proper : wanted ≠ .endOfInput) :
    only wanted .endOfInput = none :=
  only_eq_none.2 (Ne.symm proper)

theorem leads_expect {wanted : TokenKind} {good : String → List Token → Prop}
    (proper : wanted ≠ .endOfInput) :
    (expect wanted : Parser String).Leads ts good stuck ↔
      (∀ t r, ts = t :: r → t.kind = wanted → good t.text r) ∧
      (headKind ts ≠ wanted → stuck ts) := by
  unfold expect
  rw [leads_choose (only_end proper), only_eq_none]
  refine and_congr ⟨?_, ?_⟩ Iff.rfl
  · intro h t r heq hkind
    exact h t r () heq (only_eq_some.2 hkind)
  · intro h t r b heq hb
    exact h t r heq (only_eq_some.1 hb)

theorem leads_skip {wanted : TokenKind} {good : Unit → List Token → Prop}
    (proper : wanted ≠ .endOfInput) :
    (skip wanted : Parser Unit).Leads ts good stuck ↔
      (∀ t r, ts = t :: r → t.kind = wanted → good () r) ∧
      (headKind ts ≠ wanted → stuck ts) := by
  unfold skip
  rw [leads_choose (only_end proper), only_eq_none]
  refine and_congr ⟨?_, ?_⟩ Iff.rfl
  · intro h t r heq hkind
    exact h t r () heq (only_eq_some.2 hkind)
  · intro h t r b heq hb
    exact h t r heq (only_eq_some.1 hb)

theorem leads_eat {wanted : TokenKind} {good : Bool → List Token → Prop}
    (proper : wanted ≠ .endOfInput) :
    (eat wanted : Parser Bool).Leads ts good stuck ↔
      (∀ t r, ts = t :: r → t.kind = wanted → good true r) ∧
      (headKind ts ≠ wanted → good false ts) := by
  unfold eat
  rw [leads_choose (only_end proper), only_eq_none]
  refine and_congr ⟨?_, ?_⟩ Iff.rfl
  · intro h t r heq hkind
    exact h t r () heq (only_eq_some.2 hkind)
  · intro h t r b heq hb
    exact h t r heq (only_eq_some.1 hb)

/-- What a round on `ts` owes to its loop: a good end, or a token consumed and the
invariant kept. -/
abbrev Keeps (inv : σ → List Token → Prop) (good : α → List Token → Prop) (ts : List Token) :
    Round σ α → List Token → Prop
  | .done a, r => good a r
  | .again next, r => r.length < ts.length ∧ inv next r

/-- The rule for loops: an invariant `inv` of the state and the tokens ahead that every
round keeps while it consumes something, or turns into a good end. -/
theorem Leads.loop {round : σ → Parser (Round σ α)} (inv : σ → List Token → Prop)
    (keeps : ∀ s ts, inv s ts → (round s).Leads ts (Keeps inv good ts) stuck)
    {s : σ} (start : inv s ts) : (TokenReader.loop round s : Parser α).Leads ts good stuck := by
  show Leads (iterate round s) ts good stuck
  unfold Leads
  fun_induction iterate round s ts with
  | case1 s ts first hvalue =>
      have h := keeps s ts start
      rw [Leads, hvalue] at h
      exact h
  | case2 s ts first a hvalue =>
      have h := keeps s ts start
      rw [Leads, hvalue] at h
      exact h
  | case3 s ts first next hvalue shorter others ih =>
      have h := keeps s ts start
      rw [Leads, hvalue] at h
      exact ih h.2
  | case4 s ts first next hvalue stalled =>
      have h := keeps s ts start
      rw [Leads, hvalue] at h
      exact absurd h.1 stalled

/-! ## Successes with a known value -/

/-- The parser succeeds on `ts` with the value `a` and leaves `rest`. -/
def Yields (p : Parser α) (ts : List Token) (a : α) (rest : List Token) : Prop :=
  (p ts).value = some a ∧ (p ts).rest = rest

theorem yields_pure {a : α} : (pure a : Parser α).Yields ts a ts := ⟨rfl, rfl⟩

theorem yields_kindAhead : (TokenReader.kindAhead : Parser TokenKind).Yields ts (headKind ts) ts :=
  ⟨rfl, rfl⟩

theorem Yields.bind {p : Parser β} {f : β → Parser α} {b : β} {a : α} {mid : List Token}
    (first : p.Yields ts b mid) (second : (f b).Yields mid a rest) :
    (p >>= f).Yields ts a rest := by
  obtain ⟨hvalue, rfl⟩ := first
  rw [Yields, bind_some hvalue]
  exact second

/-- A success of a sequence comes through a success of its first part. -/
theorem Yields.of_bind {p : Parser β} {f : β → Parser α} {a : α}
    (h : (p >>= f).Yields ts a rest) :
    ∃ b mid, p.Yields ts b mid ∧ (f b).Yields mid a rest := by
  cases hvalue : (p ts).value with
  | none =>
      rw [Yields, bind_none hvalue] at h
      exact absurd h.1.symm (Option.some_ne_none a)
  | some b =>
      rw [Yields, bind_some hvalue] at h
      exact ⟨b, (p ts).rest, ⟨hvalue, rfl⟩, h⟩

theorem Yields.taken {accepts : TokenKind → Option β} {taken : β → String → Parser α}
    {otherwise : Parser α} {t : Token} {b : β} {a : α} (haccepts : accepts t.kind = some b)
    (next : (taken b t.text).Yields ts a rest) :
    (choose accepts taken otherwise).Yields (t :: ts) a rest := by
  apply yields_kindAhead.bind
  rw [headKind_cons, haccepts]
  have consumed : (TokenReader.advance : Parser String).Yields (t :: ts) t.text ts := ⟨rfl, rfl⟩
  exact consumed.bind next

theorem Yields.otherwise {accepts : TokenKind → Option β} {taken : β → String → Parser α}
    {otherwise : Parser α} {a : α} (haccepts : accepts (headKind ts) = none)
    (next : otherwise.Yields ts a rest) : (choose accepts taken otherwise).Yields ts a rest := by
  apply yields_kindAhead.bind
  rw [haccepts]
  exact next

/-- A success of a choice took an accepted token, or went on in place. -/
theorem Yields.of_choose {accepts : TokenKind → Option β} {taken : β → String → Parser α}
    {otherwise : Parser α} {a : α} (proper : accepts .endOfInput = none)
    (h : (choose accepts taken otherwise).Yields ts a rest) :
    (∃ t r b, ts = t :: r ∧ accepts t.kind = some b ∧ (taken b t.text).Yields r a rest) ∨
      accepts (headKind ts) = none ∧ otherwise.Yields ts a rest := by
  obtain ⟨kind, mid, ⟨hkind, rfl⟩, next⟩ := h.of_bind
  obtain rfl := Option.some.inj hkind
  cases haccepts : accepts (headKind ts) with
  | none =>
      rw [haccepts] at next
      exact .inr ⟨rfl, next⟩
  | some b =>
      obtain ⟨t, r, rfl, -⟩ := eq_cons_of_headKind rfl fun ended => by
        rw [ended, proper] at haccepts
        exact absurd haccepts.symm (Option.some_ne_none b)
      rw [haccepts] at next
      obtain ⟨text, mid, ⟨htext, rfl⟩, behind⟩ := next.of_bind
      obtain rfl := Option.some.inj htext
      exact .inl ⟨t, _, b, rfl, haccepts, behind⟩

theorem yields_eat_false {wanted : TokenKind} (h : headKind ts ≠ wanted) :
    (eat wanted : Parser Bool).Yields ts false ts :=
  Yields.otherwise (only_eq_none.2 h) yields_pure

theorem Yields.done {round : σ → Parser (Round σ α)} {s : σ} {a : α}
    (h : (round s).Yields ts (.done a) rest) :
    (TokenReader.loop round s : Parser α).Yields ts a rest := by
  obtain ⟨hvalue, hrest⟩ := h
  show (iterate round s ts).value = some a ∧ (iterate round s ts).rest = rest
  unfold iterate
  simp only [hvalue]
  exact ⟨trivial, hrest⟩

/-- A round that asks for another hands the loop on to it. -/
theorem loop_again {round : σ → Parser (Round σ α)} {s t : σ} {mid : List Token}
    (h : (round s).Yields ts (.again t) mid) (shorter : mid.length < ts.length) :
    ((TokenReader.loop round s : Parser α) ts).value = ((TokenReader.loop round t : Parser α) mid).value ∧
      ((TokenReader.loop round s : Parser α) ts).rest =
        ((TokenReader.loop round t : Parser α) mid).rest := by
  obtain ⟨hvalue, hrest⟩ := h
  subst hrest
  show (iterate round s ts).value = (iterate round t _).value ∧
    (iterate round s ts).rest = (iterate round t _).rest
  rw [iterate]
  simp only [hvalue, if_pos shorter]
  exact ⟨trivial, trivial⟩

theorem Yields.again {round : σ → Parser (Round σ α)} {s t : σ} {a : α} {mid : List Token}
    (h : (round s).Yields ts (.again t) mid) (shorter : mid.length < ts.length)
    (others : (TokenReader.loop round t : Parser α).Yields mid a rest) :
    (TokenReader.loop round s : Parser α).Yields ts a rest := by
  obtain ⟨value, left⟩ := loop_again h shorter
  exact ⟨value.trans others.1, left.trans others.2⟩

/-- A success of a loop came in a round that was the last, to which the rounds before it led.
What holds at the start and is kept by every round that asks for another holds there. -/
theorem Yields.of_loop {round : σ → Parser (Round σ α)} {s : σ} {a : α}
    (inv : σ → List Token → Prop)
    (keeps : ∀ s ts t mid, inv s ts → (round s).Yields ts (.again t) mid → inv t mid)
    (start : inv s ts) (h : (TokenReader.loop round s : Parser α).Yields ts a rest) :
    ∃ last mid, inv last mid ∧ (round last).Yields mid (.done a) rest := by
  replace h : (iterate round s ts).value = some a ∧ (iterate round s ts).rest = rest := h
  fun_induction iterate round s ts with
  | case1 s ts first hvalue => exact absurd h.1.symm (Option.some_ne_none a)
  | case2 s ts first b hvalue =>
      obtain ⟨same, left⟩ := h
      obtain rfl := Option.some.inj same
      exact ⟨s, ts, start, hvalue, left⟩
  | case3 s ts first next hvalue shorter others ih =>
      exact ih (keeps s ts next _ start ⟨hvalue, rfl⟩) h
  | case4 s ts first next hvalue stalled => exact absurd h.1.symm (Option.some_ne_none a)

end Parser

end ProcLang
