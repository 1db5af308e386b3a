import ProcLang.Parse.Account
import ProcLang.Proofs.Parse.Leads

/-!
# How far ahead a parser looks

What a parser does depends on the tokens it consumes and on few tokens behind them: on one
where it succeeds, on three where it refuses (`reach`). Token lists that agree so far
are read alike (`Parser.Local`). The lookahead of a declared name and of a declaration reaches
further, but where it does tokens are consumed afterwards. Every sequence, choice and loop of
local parsers is local.
-/

set_option autoImplicit false

namespace ProcLang

/-- Lists that agree on a front agree on every shorter one. -/
theorem take_eq_of_le {γ : Type} {l l' : List γ} {m n : Nat} (h : l.take n = l'.take n)
    (hmn : m ≤ n) : l.take m = l'.take m := by
  rw [← Nat.min_eq_left hmn, ← List.take_take, h, List.take_take]

/-- Behind a common front, lists agree as far as they did before. -/
theorem take_eq_of_append {γ : Type} {front l l' whole whole' : List γ} {n : Nat}
    (split : front ++ l = whole) (split' : front ++ l' = whole')
    (h : whole.take (front.length + n) = whole'.take (front.length + n)) :
    l.take n = l'.take n := by
  subst split split'
  rw [List.take_length_add_append, List.take_length_add_append] at h
  exact List.append_cancel_left h

/-- How many tokens, from the current one on, a refusal may depend on. -/
def lookaheadWidth : Nat := 3

/-- How many tokens behind those consumed an outcome of this value may depend on. -/
def reach {α : Type} : Option α → Nat
  | some _ => 1
  | none => lookaheadWidth

theorem one_le_reach {α : Type} (value : Option α) : 1 ≤ reach value := by
  cases value with
  | none => exact Nat.le_add_left 1 2
  | some a => exact Nat.le_refl 1

/-- On how many of the tokens ahead an outcome may depend. -/
def Outcome.looked {α : Type} (o : Outcome α) : Nat :=
  o.consumed.length + reach o.value

theorem Outcome.succ_le_looked {α : Type} {o : Outcome α} {n : Nat}
    (h : n ≤ o.consumed.length) : n + 1 ≤ o.looked :=
  Nat.add_le_add h (one_le_reach o.value)

theorem Outcome.one_le_looked {α : Type} (o : Outcome α) : 1 ≤ o.looked :=
  succ_le_looked (Nat.zero_le _)

/-- What ends as a part of it did looks as far. -/
theorem Outcome.looked_of_none {α β : Type} {o : Outcome α} (h : o.value = none)
    (rest : List Token) : (Outcome.mk (none : Option β) rest o.steps).looked = o.looked := by
  rw [looked, looked, h]
  rfl

theorem Outcome.looked_of_some {α β : Type} {o : Outcome α} {a : α} (h : o.value = some a) (b : β)
    (rest : List Token) : (Outcome.mk (some b) rest o.steps).looked = o.looked := by
  rw [looked, looked, h]
  rfl

/-- What goes on behind a success looks at least as far as the success did. -/
theorem Outcome.looked_le_of_some {α : Type} {o : Outcome α} {a : α} (h : o.value = some a)
    {n : Nat} (more : 1 ≤ n) : o.looked ≤ o.consumed.length + n := by
  rw [looked, h]
  exact Nat.add_le_add_left more _

/-- What is done in two parts looks behind the first as far as the second does. -/
theorem Outcome.looked_append {α β : Type} (first : Outcome α) (second : Outcome β) :
    (Outcome.mk second.value second.rest (first.steps ++ second.steps)).looked =
      first.consumed.length + second.looked := by
  rw [looked, consumed_append, List.length_append, Nat.add_assoc]
  rfl

namespace Parser

variable {α β σ : Type}

/-- The parser accounts for the tokens it consumes, and on tokens that agree with the given
ones as far as its outcome may depend on them it has the same value and consumes the same. -/
structure Local (p : Parser α) : Prop where
  accounts : p.Accounts
  window : ∀ ts ts', ts.take (p ts).looked = ts'.take (p ts).looked →
    (p ts').value = (p ts).value ∧ (p ts').consumed = (p ts).consumed

namespace Local

/-- A parser that only looks at the next token. -/
theorem of_look (value : List Token → Option α) {p : Parser α}
    (look : ∀ ts, (p ts).value = value ts ∧ (p ts).consumed = [] ∧ (p ts).rest = ts)
    (near : ∀ ts ts', ts.take 1 = ts'.take 1 → value ts' = value ts) : p.Local where
  accounts ts := by
    obtain ⟨-, hconsumed, hrest⟩ := look ts
    rw [hrest, hconsumed, List.nil_append]
  window ts ts' agree := by
    obtain ⟨hvalue, hconsumed, -⟩ := look ts
    obtain ⟨hvalue', hconsumed', -⟩ := look ts'
    rw [hvalue, hvalue', hconsumed, hconsumed']
    exact ⟨near ts ts' (take_eq_of_le agree (p ts).one_le_looked), rfl⟩

theorem accept (a : α) : (pure a : Parser α).Local :=
  of_look (fun _ => some a) (fun _ => ⟨rfl, rfl, rfl⟩) fun _ _ _ => rfl

theorem refuse : (TokenReader.refuse : Parser α).Local :=
  of_look (fun _ => none) (fun _ => ⟨rfl, rfl, rfl⟩) fun _ _ _ => rfl

theorem kindAhead : (TokenReader.kindAhead : Parser TokenKind).Local := by
  refine of_look (fun ts => some (headKind ts)) (fun _ => ⟨rfl, rfl, rfl⟩) ?_
  have first (ts : List Token) : headKind (ts.take 1) = headKind ts := by
    cases ts with
    | nil => rfl
    | cons t ts => rfl
  intro ts ts' agree
  rw [← first ts, agree, first ts']

theorem advance : (TokenReader.advance : Parser String).Local where
  accounts := accounts_advance
  window ts ts' agree := by
    replace agree := take_eq_of_le agree (Outcome.one_le_looked _)
    cases ts with
    | nil =>
        cases ts' with
        | nil => exact ⟨rfl, rfl⟩
        | cons t ts' => exact absurd agree (List.cons_ne_nil _ _).symm
    | cons t ts =>
        cases ts' with
        | nil => exact absurd agree (List.cons_ne_nil _ _)
        | cons t' ts' =>
            obtain ⟨rfl, -⟩ := List.cons.inj agree
            exact ⟨rfl, rfl⟩

/-- Behind what a local parser consumes, tokens agree as far as they did before. -/
theorem rest_agree {p : Parser α} (hp : p.Local) {ts ts' : List Token} {n : Nat}
    (same : (p ts').consumed = (p ts).consumed)
    (agree : ts.take ((p ts).consumed.length + n) = ts'.take ((p ts).consumed.length + n)) :
    (p ts).rest.take n = (p ts').rest.take n := by
  have split' := hp.accounts ts'
  rw [same] at split'
  exact take_eq_of_append (hp.accounts ts) split' agree

/-- Parsers that consume the same make progress alike. -/
theorem shorter_iff {p : Parser α} (hp : p.Local) {ts ts' : List Token}
    (same : (p ts').consumed = (p ts).consumed) :
    (p ts').rest.length < ts'.length ↔ (p ts).rest.length < ts.length := by
  rw [hp.accounts.shorter_iff, same, ← hp.accounts.shorter_iff]

theorem bind {p : Parser α} {f : α → Parser β} (hp : p.Local) (hf : ∀ a, (f a).Local) :
    (p >>= f).Local where
  accounts := hp.accounts.bind fun a => (hf a).accounts
  window ts ts' agree := by
    cases hvalue : (p ts).value with
    | none =>
        rw [bind_none hvalue] at agree ⊢
        rw [Outcome.looked_of_none hvalue] at agree
        obtain ⟨value, consumed⟩ := hp.window ts ts' agree
        rw [bind_none (value.trans hvalue)]
        exact ⟨rfl, consumed⟩
    | some a =>
        rw [bind_some hvalue, Outcome.looked_append] at agree
        -- what the first part looked at is within what the sequence looked at
        have near := take_eq_of_le agree (Outcome.looked_le_of_some hvalue (Outcome.one_le_looked _))
        obtain ⟨value, consumed⟩ := hp.window ts ts' near
        obtain ⟨value', consumed'⟩ := (hf a).window _ _ (hp.rest_agree consumed agree)
        rw [bind_consumed hvalue, bind_consumed (value.trans hvalue), bind_some hvalue,
          bind_some (value.trans hvalue), consumed, consumed']
        exact ⟨value', rfl⟩

theorem choose {accepts : TokenKind → Option β} {taken : β → String → Parser α}
    {otherwise : Parser α} (htaken : ∀ b text, (taken b text).Local)
    (hotherwise : otherwise.Local) : (TokenReader.choose accepts taken otherwise).Local := by
  apply kindAhead.bind
  intro kind
  cases accepts kind with
  | none => exact hotherwise
  | some b => exact advance.bind (htaken b)

theorem loop {round : σ → Parser (Round σ α)} (hround : ∀ s, (round s).Local) (s : σ) :
    (TokenReader.loop round s : Parser α).Local where
  accounts := Accounts.loop (fun s => (hround s).accounts) s
  window ts ts' agree := by
    replace agree : ts.take (iterate round s ts).looked = ts'.take (iterate round s ts).looked :=
      agree
    show (iterate round s ts').value = (iterate round s ts).value ∧
      (iterate round s ts').consumed = (iterate round s ts).consumed
    revert agree
    -- The induction is on the tokens ahead; the other list goes through the same rounds.
    fun_induction iterate round s ts generalizing ts' with
    | case1 s ts first hvalue =>
        intro agree
        rw [Outcome.looked_of_none hvalue] at agree
        obtain ⟨value, consumed⟩ := (hround s).window ts ts' agree
        rw [iterate]
        simp only [value, first, hvalue]
        exact ⟨trivial, consumed⟩
    | case2 s ts first a hvalue =>
        intro agree
        rw [Outcome.looked_of_some hvalue] at agree
        obtain ⟨value, consumed⟩ := (hround s).window ts ts' agree
        rw [iterate]
        simp only [value, first, hvalue]
        exact ⟨trivial, consumed⟩
    | case3 s ts first next hvalue shorter others tail =>
        intro agree
        rw [Outcome.looked_append] at agree
        have near := take_eq_of_le agree (Outcome.looked_le_of_some hvalue (Outcome.one_le_looked _))
        obtain ⟨value, consumed⟩ := (hround s).window ts ts' near
        obtain ⟨value', consumed'⟩ := tail _ ((hround s).rest_agree consumed agree)
        rw [iterate]
        simp only [value, first, hvalue]
        rw [if_pos (((hround s).shorter_iff consumed).2 shorter), Outcome.consumed_append,
          Outcome.consumed_append, consumed, consumed']
        exact ⟨value', rfl⟩
    | case4 s ts first next hvalue stuck =>
        intro agree
        have near := take_eq_of_le agree (Outcome.looked_le_of_some hvalue (one_le_reach _))
        obtain ⟨value, consumed⟩ := (hround s).window ts ts' near
        rw [iterate]
        simp only [value, first, hvalue]
        rw [if_neg (mt ((hround s).shorter_iff consumed).1 stuck)]
        exact ⟨rfl, consumed⟩

theorem expect (wanted : TokenKind) : (TokenReader.expect wanted : Parser String).Local :=
  .choose (fun _ text => .accept text) .refuse

theorem skip (wanted : TokenKind) : (TokenReader.skip wanted : Parser Unit).Local :=
  .choose (fun _ _ => .accept ()) .refuse

end Local

/-! ## Patterns -/

/-- Whether the kinds of the tokens ahead begin with a pattern. -/
def sees (pattern : List TokenKind) (ts : List Token) : Bool :=
  (ts.take pattern.length).map (·.kind) == pattern

theorem sees_congr {pattern : List TokenKind} {ts ts' : List Token}
    (agree : ts.take pattern.length = ts'.take pattern.length) :
    sees pattern ts = sees pattern ts' := by
  rw [sees, sees, agree]

/-- A pattern whose front is not seen is not seen. -/
theorem sees_front {front : List TokenKind} (behind : List TokenKind) {ts : List Token}
    (h : sees (front ++ behind) ts = true) : sees front ts = true := by
  have whole := congrArg (List.take front.length) (beq_iff_eq.1 h)
  rw [← List.map_take, List.take_take, List.take_left, List.length_append,
    Nat.min_eq_left (Nat.le_add_right _ _)] at whole
  exact beq_iff_eq.2 whole

/-- A pattern is seen if its first kind is that of the current token and the others are seen
behind it. -/
theorem sees_cons {kind : TokenKind} {pattern : List TokenKind} {ts : List Token}
    (h : sees (kind :: pattern) ts = true) :
    ∃ t rest, ts = t :: rest ∧ t.kind = kind ∧ sees pattern rest = true := by
  cases ts with
  | nil => exact absurd (beq_iff_eq.1 h) (List.cons_ne_nil _ _).symm
  | cons t rest =>
      obtain ⟨first, others⟩ := List.cons.inj (beq_iff_eq.1 h)
      exact ⟨t, rest, rfl, first, beq_iff_eq.2 others⟩

/-- Looking for a pattern consumes nothing and tells whether it is seen. -/
theorem bind_lookingAt (pattern : List TokenKind) (f : Bool → Parser α) (ts : List Token) :
    (TokenReader.lookingAt pattern >>= f : Parser α) ts = f (sees pattern ts) ts := rfl

/-- A pattern may be looked for if what is done then looks as far as the pattern is long. -/
theorem Local.lookingAt_bind {pattern : List TokenKind} {f : Bool → Parser α}
    (hf : ∀ seen, (f seen).Local)
    (near : ∀ ts, pattern.length ≤ ((TokenReader.lookingAt pattern >>= f : Parser α) ts).looked) :
    (TokenReader.lookingAt pattern >>= f : Parser α).Local where
  accounts ts := (hf (sees pattern ts)).accounts ts
  window ts ts' agree := by
    rw [bind_lookingAt] at agree ⊢
    rw [bind_lookingAt, ← sees_congr (take_eq_of_le agree (near ts))]
    exact (hf _).window ts ts' agree

/-! ## Progress -/

/-- A success has consumed a token. -/
def Moves (p : Parser α) : Prop :=
  ∀ ts a, (p ts).value = some a → 0 < (p ts).consumed.length

theorem consumed_le_bind (p : Parser α) (f : α → Parser β) (ts : List Token) :
    (p ts).consumed.length ≤ ((p >>= f) ts).consumed.length := by
  cases hvalue : (p ts).value with
  | none =>
      rw [bind_none hvalue]
      exact Nat.le_refl _
  | some a =>
      rw [bind_consumed hvalue, List.length_append]
      exact Nat.le_add_right _ _

theorem consumed_le_loop (round : σ → Parser (Round σ α)) (s : σ) (ts : List Token) :
    (round s ts).consumed.length ≤
      ((TokenReader.loop round s : Parser α) ts).consumed.length := by
  show _ ≤ (iterate round s ts).consumed.length
  fun_cases iterate round s ts with
  | case1 | case2 | case4 => exact Nat.le_refl _
  | case3 next =>
      rw [Outcome.consumed_append, List.length_append]
      exact Nat.le_add_right _ _

/-- What is read behind a token that was consumed is consumed as well. -/
theorem consumed_behind {p : Parser α} {f : α → Parser β} {t : Token} {rest : List Token} {a : α}
    {n : Nat} (hp : p.Accounts) (read : p.Yields (t :: rest) a rest)
    (more : n ≤ (f a rest).consumed.length) :
    n + 1 ≤ ((p >>= f) (t :: rest)).consumed.length := by
  obtain ⟨value, left⟩ := read
  have first : 0 < (p (t :: rest)).consumed.length := by
    rw [← hp.shorter_iff, left]
    exact Nat.lt_succ_self _
  rw [bind_consumed value, left, List.length_append, Nat.add_comm]
  exact Nat.add_le_add first more

theorem Moves.bind {p : Parser α} {f : α → Parser β} (hp : p.Moves) : (p >>= f).Moves := by
  intro ts b read
  obtain ⟨a, _, ⟨value, -⟩, -⟩ := Yields.of_bind ⟨read, rfl⟩
  exact Nat.lt_of_lt_of_le (hp ts a value) (consumed_le_bind p f ts)

theorem Moves.behind {p : Parser α} {f : α → Parser β} (hf : ∀ a, (f a).Moves) :
    (p >>= f).Moves := by
  intro ts b read
  obtain ⟨a, _, ⟨value, rfl⟩, next, -⟩ := Yields.of_bind ⟨read, rfl⟩
  rw [bind_consumed value, List.length_append]
  exact Nat.add_pos_right _ (hf a _ b next)

theorem moves_refuse : (TokenReader.refuse : Parser α).Moves :=
  fun _ a read => absurd read (Option.some_ne_none a).symm

/-- A choice moves if it does where it takes no token. -/
theorem Moves.choose {accepts : TokenKind → Option β} {taken : β → String → Parser α}
    {otherwise : Parser α} (proper : accepts .endOfInput = none)
    (hotherwise : otherwise.Moves) : (TokenReader.choose accepts taken otherwise).Moves := by
  intro ts
  show ∀ a, ((match accepts (headKind ts) with
      | some b => TokenReader.advance >>= taken b
      | none => otherwise : Parser α) ts).value = some a →
    0 < ((match accepts (headKind ts) with
      | some b => TokenReader.advance >>= taken b
      | none => otherwise : Parser α) ts).consumed.length
  cases haccepts : accepts (headKind ts) with
  | none => exact hotherwise ts
  | some b =>
      intro a _
      cases ts with
      | nil => exact absurd (proper.symm.trans haccepts) (Option.some_ne_none b).symm
      | cons t rest => exact consumed_le_bind TokenReader.advance (taken b) (t :: rest)

theorem moves_expect {wanted : TokenKind} (proper : wanted ≠ .endOfInput) :
    (TokenReader.expect wanted : Parser String).Moves :=
  .choose (only_end proper) moves_refuse

theorem moves_skip {wanted : TokenKind} (proper : wanted ≠ .endOfInput) :
    (TokenReader.skip wanted : Parser Unit).Moves :=
  .choose (only_end proper) moves_refuse

/-- A parser that moves looks at two tokens at least. -/
theorem Moves.two_le_looked {p : Parser α} (hp : p.Moves) (ts : List Token) :
    2 ≤ (p ts).looked := by
  cases hvalue : (p ts).value with
  | none =>
      rw [Outcome.looked, hvalue]
      exact Nat.le_add_left_of_le (show 2 ≤ lookaheadWidth by decide)
  | some a =>
      rw [Outcome.looked, hvalue]
      exact Nat.succ_le_succ (hp ts a hvalue)

theorem yields_expect_kind {wanted : TokenKind} {t : Token} (rest : List Token)
    (h : t.kind = wanted) :
    (TokenReader.expect wanted : Parser String).Yields (t :: rest) t.text rest :=
  Yields.taken (b := ()) (only_eq_some.2 h) yields_pure

theorem yields_skip_kind {wanted : TokenKind} {t : Token} (rest : List Token)
    (h : t.kind = wanted) : (TokenReader.skip wanted : Parser Unit).Yields (t :: rest) () rest :=
  Yields.taken (b := ()) (only_eq_some.2 h) yields_pure

/-! ## Declared names -/

theorem moves_declarator : (Declarator.parse : Parser Declarator).Moves := by
  apply Moves.behind
  intro pointer
  cases pointer with
  | true => exact (moves_skip (by decide)).bind
  | false => exact (moves_expect (by decide)).bind

/-- A declared name looks for a pattern of two tokens. It consumes one of them, or both, or
it refuses. -/
theorem Local.declarator : (Declarator.parse : Parser Declarator).Local := by
  refine .lookingAt_bind ?_ moves_declarator.two_le_looked
  intro pointer
  cases pointer with
  | true => exact (Local.skip _).bind fun _ => (Local.expect _).bind fun _ => .accept _
  | false => exact (Local.expect _).bind fun _ => .accept _

theorem consumed_declarator_plain {ts : List Token} (h : sees [.ident] ts = true) :
    1 ≤ ((Declarator.parse : Parser Declarator) ts).consumed.length := by
  obtain ⟨t, rest, rfl, name, -⟩ := sees_cons h
  have unmarked : sees [.star, .ident] (t :: rest) = false := by
    apply Bool.eq_false_iff.2
    intro marked
    obtain ⟨_, _, ⟨rfl, rfl⟩, star, -⟩ := sees_cons marked
    exact absurd (name.symm.trans star) (by decide)
  unfold Declarator.parse
  rw [bind_lookingAt, unmarked, if_neg Bool.false_ne_true]
  exact consumed_behind (Local.expect _).accounts (yields_expect_kind rest name) (Nat.zero_le _)

theorem consumed_declarator_pointer {ts : List Token} (h : sees [.star, .ident] ts = true) :
    2 ≤ ((Declarator.parse : Parser Declarator) ts).consumed.length := by
  unfold Declarator.parse
  rw [bind_lookingAt, h, if_pos rfl]
  obtain ⟨s, rest, rfl, star, name⟩ := sees_cons h
  obtain ⟨t, rest, rfl, ident, -⟩ := sees_cons name
  apply consumed_behind (Local.skip _).accounts (yields_skip_kind _ star)
  exact consumed_behind (Local.expect _).accounts (yields_expect_kind rest ident) (Nat.zero_le _)

/-! ## Declarations -/

/-- The part of a declaration that is read once the lookahead has decided. -/
def declared (inner : Nested Parser) (ts : List Token) : Parser Decl :=
  if sees [.typeName, .ident, .lparen] ts || sees [.typeName, .star, .ident, .lparen] ts then
    do return .func (← inner.funcDecl)
  else if sees [.typeName, .ident] ts || sees [.typeName, .star, .ident] ts then
    do return .var (← inner.varDecl)
  else TokenReader.refuse

theorem declaration_eq (inner : Nested Parser) (ts : List Token) :
    inner.declaration ts =
      ⟨(declared inner ts ts).value, (declared inner ts ts).rest,
        .declaration ts.head? :: (declared inner ts ts).steps⟩ := by
  have first : inner.declaration ts =
      let body : Parser Decl :=
        if sees [.typeName, .ident, .lparen] ts || sees [.typeName, .star, .ident, .lparen] ts then
          do return .func (← inner.funcDecl)
        else do
          if (← TokenReader.lookingAt [.typeName, .ident])
              || (← TokenReader.lookingAt [.typeName, .star, .ident]) then
            return .var (← inner.varDecl)
          TokenReader.refuse
      ⟨(body ts).value, (body ts).rest, .declaration ts.head? :: (body ts).steps⟩ := rfl
  rw [first, declared]
  by_cases function : (sees [.typeName, .ident, .lparen] ts ||
      sees [.typeName, .star, .ident, .lparen] ts) = true
  · rw [if_pos function, if_pos function]
  · rw [if_neg function, if_neg function]
    rfl

/-- A declaration begins with the name of a type. -/
theorem sees_type {ts : List Token}
    (h : (sees [.typeName, .ident] ts || sees [.typeName, .star, .ident] ts) = true) :
    headKind ts = .typeName := by
  rcases Bool.or_eq_true_iff.1 h with plain | pointer
  · obtain ⟨t, rest, rfl, type, -⟩ := sees_cons plain
    exact type
  · obtain ⟨t, rest, rfl, type, -⟩ := sees_cons pointer
    exact type

/-- Where a declaration can begin, its first token is consumed, and behind it what the
declared name consumes. -/
theorem consumed_declared {inner : Nested Parser} {t : Token} {rest : List Token}
    (h : (sees [.typeName, .ident] (t :: rest) ||
      sees [.typeName, .star, .ident] (t :: rest)) = true) {n : Nat}
    (more : n ≤ ((Declarator.parse : Parser Declarator) rest).consumed.length) :
    n + 1 ≤ (declared inner (t :: rest) (t :: rest)).consumed.length := by
  have type := yields_expect_kind rest (sees_type h)
  unfold declared
  rw [if_pos h]
  split
  · refine Nat.le_trans ?_ (consumed_le_bind _ _ _)
    unfold Nested.funcDecl
    apply consumed_behind (Local.expect _).accounts type
    exact Nat.le_trans more (consumed_le_bind _ _ _)
  -- the declared name is the first of the list
  · refine Nat.le_trans ?_ (consumed_le_bind _ _ _)
    unfold Nested.varDecl
    apply consumed_behind (Local.expect _).accounts type
    refine Nat.le_trans ?_ (consumed_le_bind _ _ _)
    unfold TokenReader.commaList
    refine Nat.le_trans ?_ (consumed_le_loop _ _ _)
    refine Nat.le_trans ?_ (consumed_le_bind _ _ _)
    unfold Nested.initBinding
    exact Nat.le_trans more (consumed_le_bind _ _ _)

/-- Where a declaration can begin, tokens are consumed. -/
theorem declared_consumes {inner : Nested Parser} {ts : List Token}
    (h : (sees [.typeName, .ident] ts || sees [.typeName, .star, .ident] ts) = true) :
    0 < (declared inner ts ts).consumed.length := by
  obtain ⟨t, rest, rfl, -⟩ := eq_cons_of_headKind (sees_type h) (by decide)
  exact consumed_declared h (Nat.zero_le _)

/-- Where no declaration can begin, the first token is refused. -/
theorem declared_refuses {inner : Nested Parser} {ts : List Token}
    (h : ¬(sees [.typeName, .ident] ts || sees [.typeName, .star, .ident] ts) = true) :
    declared inner ts = TokenReader.refuse := by
  have unseen : ¬(sees [.typeName, .ident, .lparen] ts ||
      sees [.typeName, .star, .ident, .lparen] ts) = true := by
    intro seen
    apply h
    apply Bool.or_eq_true_iff.2
    rcases Bool.or_eq_true_iff.1 seen with plain | pointer
    · exact .inl (sees_front [.lparen] plain)
    · exact .inr (sees_front [.lparen] pointer)
  rw [declared, if_neg unseen, if_neg h]

/-- A declaration looks at four tokens at least where the second is a pointer mark before a
name, and at three anywhere else. -/
theorem declared_looked (inner : Nested Parser) (ts : List Token) :
    3 ≤ (declared inner ts ts).looked ∧
      (sees [.typeName, .star, .ident] ts = true → 4 ≤ (declared inner ts ts).looked) := by
  have pointer (h : sees [.typeName, .star, .ident] ts = true) :
      4 ≤ (declared inner ts ts).looked := by
    obtain ⟨t, rest, rfl, -, name⟩ := sees_cons h
    exact Outcome.succ_le_looked
      (consumed_declared (Bool.or_eq_true_iff.2 (.inr h)) (consumed_declarator_pointer name))
  refine ⟨?_, pointer⟩
  by_cases begins : (sees [.typeName, .ident] ts || sees [.typeName, .star, .ident] ts) = true
  · rcases Bool.or_eq_true_iff.1 begins with plain | marked
    · obtain ⟨t, rest, rfl, -, name⟩ := sees_cons plain
      exact Outcome.succ_le_looked (consumed_declared begins (consumed_declarator_plain name))
    · exact Nat.le_of_succ_le (pointer marked)
  · rw [declared_refuses begins]
    exact Nat.le_refl 3

/-- The lookahead decides alike on tokens that agree as far as the outcome may depend on them. -/
theorem declared_congr {inner : Nested Parser} {ts ts' : List Token}
    (agree : ts.take (declared inner ts ts).looked = ts'.take (declared inner ts ts).looked) :
    declared inner ts' = declared inner ts := by
  obtain ⟨three, four⟩ := declared_looked inner ts
  have near (pattern : List TokenKind) (short : pattern.length ≤ (declared inner ts ts).looked) :
      sees pattern ts' = sees pattern ts :=
    sees_congr (take_eq_of_le agree short).symm
  have variable₂ : sees [.typeName, .ident] ts' = sees [.typeName, .ident] ts :=
    near _ (Nat.le_of_succ_le three)
  have variable₃ : sees [.typeName, .star, .ident] ts' = sees [.typeName, .star, .ident] ts :=
    near _ three
  have function₃ : sees [.typeName, .ident, .lparen] ts' = sees [.typeName, .ident, .lparen] ts :=
    near _ three
  have function₄ : sees [.typeName, .star, .ident, .lparen] ts' =
      sees [.typeName, .star, .ident, .lparen] ts := by
    cases pointer : sees [.typeName, .star, .ident] ts with
    | true => exact near _ (four pointer)
    | false =>
        -- without the pointer the longest pattern is not seen, whatever the fourth token is
        have unseen {us : List Token} (h : sees [.typeName, .star, .ident] us = false) :
            sees [.typeName, .star, .ident, .lparen] us = false :=
          Bool.eq_false_iff.2 fun seen => Bool.eq_false_iff.1 h (sees_front [.lparen] seen)
        rw [unseen pointer, unseen (variable₃.trans pointer)]
  unfold declared
  rw [function₃, function₄, variable₂, variable₃]

/-- Declarations are local if functions and lists of variables are. -/
theorem Local.declaration {inner : Nested Parser} (func : inner.funcDecl.Local)
    (var : inner.varDecl.Local) : inner.declaration.Local := by
  have whole (ts : List Token) : (declared inner ts).Local := by
    unfold declared
    split
    · exact func.bind fun _ => .accept _
    · split
      · exact var.bind fun _ => .accept _
      · exact .refuse
  constructor
  · intro ts
    rw [declaration_eq]
    exact (whole ts).accounts ts
  · intro ts ts' agree
    rw [declaration_eq] at agree ⊢
    replace agree : ts.take (declared inner ts ts).looked = ts'.take (declared inner ts ts).looked :=
      agree
    rw [declaration_eq, declared_congr agree]
    exact (whole ts).window ts ts' agree

/-- Every way of reading is local. -/
theorem local_compatible : @Compatible Parser Parser _ _ fun _ p _ => p.Local where
  pure := .accept
  refuse := .refuse
  kindAhead := .kindAhead
  bind := .bind
  choose _ := .choose
  loop := .loop
  declarator := .declarator
  declaration := .declaration

/-- Programs are read locally, whatever the limit. -/
theorem local_program (limit : Nat) : (nestedParsers limit).program.Local :=
  local_compatible.program (nestedParsers_related local_compatible.toComposable limit)

end Parser

end ProcLang
