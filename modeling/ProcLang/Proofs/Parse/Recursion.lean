import ProcLang.Parse.Compatible
import ProcLang.Parse.Unlimited

/-!
# The recursion of the unlimited parser

The unlimited parsers are what their recursion says: each is the phrase that it reads, made
from the unlimited parsers themselves, with its level opened (`unlimitedParsers_eq`). No
other parsers satisfy the recursion (`eq_unlimitedParsers`).

Both come from one step. Parsers made from two families of parsers that agree on fewer than
`k` tokens agree on `k` tokens as well, because each phrase consumes a token before it turns
to a phrase inside it (`AgreeUpTo`). A statement may turn to an expression at once, and so
it takes two rounds of the recursion to get from `k` to `k + 1`.
-/

set_option autoImplicit false

namespace ProcLang

open TokenReader

namespace FreeParser

variable {α β σ : Type} {k : Nat}

/-- On fewer than `k` tokens the two parsers do the same, and they leave no more tokens than
they are given. -/
def AgreeBelow (k : Nat) (p q : FreeParser α) : Prop :=
  ∀ depth ts, ts.length < k →
    p depth ts = q depth ts ∧ (p depth ts).rest.length ≤ ts.length

/-- On up to `k` tokens the two parsers do the same, and where they succeed they consume a
token. -/
def AgreeUpTo (k : Nat) (p q : FreeParser α) : Prop :=
  ∀ depth ts, ts.length ≤ k →
    p depth ts = q depth ts ∧ (p depth ts).rest.length ≤ ts.length ∧
      ((p depth ts).value ≠ none → (p depth ts).rest.length < ts.length)

theorem AgreeUpTo.below {p q : FreeParser α} (h : AgreeUpTo k p q) : AgreeBelow (k + 1) p q := by
  intro depth ts short
  obtain ⟨same, left, -⟩ := h depth ts (Nat.le_of_lt_succ short)
  exact ⟨same, left⟩

/-! ## Parsers that agree below a bound -/

theorem AgreeBelow.flat {p : Parser α} (left : ∀ ts, (p ts).rest.length ≤ ts.length) :
    AgreeBelow k (flat p) (flat p) := by
  intro depth ts _
  exact ⟨rfl, left ts⟩

theorem rest_advance_le (ts : List Token) : (Parser.advance ts).rest.length ≤ ts.length := by
  cases ts with
  | nil => exact Nat.le_refl _
  | cons t ts => exact Nat.le_succ _

theorem AgreeBelow.bind {p q : FreeParser α} {f g : α → FreeParser β} (hp : AgreeBelow k p q)
    (hf : ∀ a, AgreeBelow k (f a) (g a)) : AgreeBelow k (p >>= f) (q >>= g) := by
  intro depth ts short
  obtain ⟨same, left⟩ := hp depth ts short
  cases hvalue : (p depth ts).value with
  | none =>
      rw [bind_none hvalue, bind_none (same ▸ hvalue), ← same]
      exact ⟨rfl, left⟩
  | some a =>
      obtain ⟨same', left'⟩ := hf a depth (p depth ts).rest (Nat.lt_of_le_of_lt left short)
      rw [bind_some hvalue, bind_some (same ▸ hvalue), ← same, ← same']
      exact ⟨rfl, Nat.le_trans left' left⟩

theorem AgreeBelow.choose {accepts : TokenKind → Option β} {taken taken' : β → String → FreeParser α}
    {otherwise otherwise' : FreeParser α}
    (htaken : ∀ b text, AgreeBelow k (taken b text) (taken' b text))
    (hotherwise : AgreeBelow k otherwise otherwise') :
    AgreeBelow k (choose accepts taken otherwise) (choose accepts taken' otherwise') := by
  apply AgreeBelow.bind (AgreeBelow.flat fun ts => Nat.le_refl _)
  intro kind
  cases accepts kind with
  | none => exact hotherwise
  | some b => exact (AgreeBelow.flat rest_advance_le).bind (htaken b)

theorem AgreeBelow.loop {round round' : σ → FreeParser (Round σ α)}
    (hround : ∀ s, AgreeBelow k (round s) (round' s)) (s : σ) :
    AgreeBelow k (TokenReader.loop round s) (TokenReader.loop round' s) := by
  intro depth ts short
  show iterate round s depth ts = iterate round' s depth ts ∧
    (iterate round s depth ts).rest.length ≤ ts.length
  -- the induction is on the tokens ahead; they stay below the bound
  fun_induction iterate round s depth ts with
  | case1 s ts first hvalue =>
      obtain ⟨same, left⟩ := hround s depth ts short
      rw [iterate, ← same]
      simp only [first, hvalue]
      exact ⟨trivial, left⟩
  | case2 s ts first a hvalue =>
      obtain ⟨same, left⟩ := hround s depth ts short
      rw [iterate, ← same]
      simp only [first, hvalue]
      exact ⟨trivial, left⟩
  | case3 s ts first next hvalue shorter others tail =>
      obtain ⟨same, left⟩ := hround s depth ts short
      obtain ⟨same', left'⟩ := tail (Nat.lt_trans shorter short)
      rw [iterate, ← same]
      simp only [first, hvalue]
      rw [if_pos shorter, ← same']
      exact ⟨rfl, Nat.le_trans left' left⟩
  | case4 s ts first next hvalue stuck =>
      obtain ⟨same, left⟩ := hround s depth ts short
      rw [iterate, ← same]
      simp only [first, hvalue]
      rw [if_neg stuck]
      exact ⟨rfl, left⟩

theorem agreeBelow_compatible :
    @Compatible FreeParser FreeParser _ _ fun _ p q => AgreeBelow k p q :=
  Primitive.compatible
    { pure := fun _ => .flat fun _ => Nat.le_refl _
      refuse := .flat fun _ => Nat.le_refl _
      kindAhead := .flat fun _ => Nat.le_refl _
      noteDeclaration := .flat fun _ => Nat.le_refl _
      lookingAt := fun _ _ => .flat fun _ => Nat.le_refl _
      bind := AgreeBelow.bind
      choose := fun _ => AgreeBelow.choose
      loop := AgreeBelow.loop }

theorem AgreeBelow.deeper {p q : FreeParser α} (h : AgreeBelow k p q) :
    AgreeBelow k p.deeper q.deeper := by
  intro depth ts short
  obtain ⟨same, left⟩ := h (depth + 1) ts short
  refine ⟨?_, left⟩
  show Trace.mk (p (depth + 1) ts).toOutcome _ = Trace.mk (q (depth + 1) ts).toOutcome _
  rw [same]

/-! ## Parsers that consume a token first -/

theorem AgreeUpTo.refuse : AgreeUpTo k (TokenReader.refuse : FreeParser α) TokenReader.refuse := by
  intro depth ts _
  exact ⟨rfl, Nat.le_refl _, fun accepted => absurd rfl accepted⟩

/-- Behind a token, agreement below the bound is enough. -/
theorem AgreeUpTo.bind {p q : FreeParser α} {f g : α → FreeParser β} (hp : AgreeUpTo k p q)
    (hf : ∀ a, AgreeBelow k (f a) (g a)) : AgreeUpTo k (p >>= f) (q >>= g) := by
  intro depth ts short
  obtain ⟨same, left, consumes⟩ := hp depth ts short
  cases hvalue : (p depth ts).value with
  | none =>
      rw [bind_none hvalue, bind_none (same ▸ hvalue), ← same]
      exact ⟨rfl, left, fun accepted => absurd rfl accepted⟩
  | some a =>
      have shorter : (p depth ts).rest.length < ts.length :=
        consumes (hvalue ▸ Option.some_ne_none a)
      obtain ⟨same', left'⟩ := hf a depth (p depth ts).rest (Nat.lt_of_lt_of_le shorter short)
      rw [bind_some hvalue, bind_some (same ▸ hvalue), ← same, ← same']
      exact ⟨rfl, Nat.le_trans left' left, fun _ => Nat.lt_of_le_of_lt left' shorter⟩

/-- What is chosen by the kind ahead may be any parser that consumes a token. -/
theorem AgreeUpTo.look {f g : TokenKind → FreeParser α} (hf : ∀ kind, AgreeUpTo k (f kind) (g kind)) :
    AgreeUpTo k (TokenReader.kindAhead >>= f) (TokenReader.kindAhead >>= g) := fun depth ts short =>
  hf (headKind ts) depth ts short

theorem AgreeUpTo.advance :
    AgreeUpTo k (TokenReader.advance : FreeParser String) TokenReader.advance := by
  intro depth ts _
  cases ts with
  | nil => exact ⟨rfl, Nat.le_refl _, fun accepted => absurd rfl accepted⟩
  | cons t ts => exact ⟨rfl, Nat.le_succ _, fun _ => Nat.lt_succ_self _⟩

theorem AgreeUpTo.choose {accepts : TokenKind → Option β} {taken taken' : β → String → FreeParser α}
    {otherwise otherwise' : FreeParser α}
    (htaken : ∀ b text, AgreeBelow k (taken b text) (taken' b text))
    (hotherwise : AgreeUpTo k otherwise otherwise') :
    AgreeUpTo k (choose accepts taken otherwise) (choose accepts taken' otherwise') := by
  apply AgreeUpTo.look
  intro kind
  cases accepts kind with
  | none => exact hotherwise
  | some b => exact AgreeUpTo.advance.bind (htaken b)

theorem AgreeUpTo.expect {wanted : TokenKind} :
    AgreeUpTo k (expect wanted : FreeParser String) (expect wanted) :=
  .choose (fun _ text => agreeBelow_compatible.pure text) .refuse

theorem AgreeUpTo.skip {wanted : TokenKind} :
    AgreeUpTo k (skip wanted : FreeParser Unit) (skip wanted) :=
  .choose (fun _ _ => agreeBelow_compatible.pure ()) .refuse

theorem AgreeUpTo.deeper {p q : FreeParser α} (h : AgreeUpTo k p q) :
    AgreeUpTo k p.deeper q.deeper := by
  intro depth ts short
  obtain ⟨same, left, consumes⟩ := h (depth + 1) ts short
  refine ⟨?_, left, consumes⟩
  show Trace.mk (p (depth + 1) ts).toOutcome _ = Trace.mk (q (depth + 1) ts).toOutcome _
  rw [same]

/-! ## One round of the recursion -/

section Phrases

variable {inner inner' : Nested FreeParser}
  (r : Nested.Related (fun _ p q => AgreeBelow k p q) inner inner')

include r

theorem agreeUpTo_unaryExpr : AgreeUpTo k inner.unaryExpr inner'.unaryExpr := by
  have h := agreeBelow_compatible (k := k)
  have primary : AgreeUpTo k inner.primary inner'.primary :=
    .choose (fun _ _ => h.pure _) <|
      .choose (fun _ _ => h.pure _) <|
        AgreeUpTo.skip.bind fun _ => h.bind r.expr fun _ => h.bind (h.skip rfl) fun _ => h.pure _
  exact .choose (fun _ _ => h.bind r.unary fun _ => h.pure _)
    (primary.bind fun base => h.loop (h.postfixRound r) base)

theorem agreeUpTo_operatorExpr (least : Nat) :
    AgreeUpTo k (inner.operatorExpr least) (inner'.operatorExpr least) :=
  (agreeUpTo_unaryExpr r).bind fun first =>
    agreeBelow_compatible.loop (agreeBelow_compatible.binaryRound r least) first

/-- A statement may begin with an expression, which has to agree up to the bound. -/
theorem agreeUpTo_statement (expr : AgreeUpTo k inner.expr inner'.expr) :
    AgreeUpTo k inner.statement inner'.statement := by
  have h := agreeBelow_compatible (k := k)
  apply AgreeUpTo.look
  intro kind
  split
  · exact AgreeUpTo.skip.bind fun _ => h.bind (h.blockBody r) fun _ => h.pure _
  · exact AgreeUpTo.skip.bind fun _ => h.bind (h.branch r) fun _ =>
      h.bind (h.alternatives r) fun _ => h.pure _
  · exact AgreeUpTo.skip.bind fun _ => h.bind (h.branch r) fun _ => h.pure _
  · exact AgreeUpTo.skip.bind fun _ => h.bind r.stmt fun _ => h.pure _
  · exact AgreeUpTo.refuse
  · exact AgreeUpTo.skip.bind fun _ => h.bind (h.skip rfl) fun _ => h.pure _
  · exact AgreeUpTo.skip.bind fun _ => h.bind (h.skip rfl) fun _ => h.pure _
  · exact AgreeUpTo.skip.bind fun _ => h.bind r.expr fun _ => h.bind (h.skip rfl) fun _ => h.pure _
  · have varDecl : AgreeUpTo k inner.varDecl inner'.varDecl :=
      AgreeUpTo.expect.bind fun _ => h.bind (h.commaList (h.initBinding r) rfl) fun _ => h.pure _
    exact varDecl.bind fun _ => h.pure _
  · exact expr.bind fun _ => h.bind (h.skip rfl) fun _ => h.pure _

theorem opening_related :
    Nested.Related (fun _ p q => AgreeBelow k p q) inner.opening inner'.opening := by
  have h := agreeBelow_compatible (k := k)
  exact ⟨fun least => (h.operatorExpr r least).deeper, (h.unaryExpr r).deeper,
    (h.statement r).deeper⟩

/-- Two rounds of the recursion reach one token further. -/
theorem opening_opening_related :
    Nested.Related (fun _ p q => AgreeBelow (k + 1) p q) inner.opening.opening
      inner'.opening.opening := by
  have once := opening_related r
  have expr : AgreeUpTo k inner.opening.expr inner'.opening.expr :=
    (agreeUpTo_operatorExpr r 0).deeper
  exact ⟨fun least => (agreeUpTo_operatorExpr once least).below.deeper,
    (agreeUpTo_unaryExpr once).below.deeper, (agreeUpTo_statement once expr).below.deeper⟩

end Phrases

/-! ## The recursion has one solution -/

/-- Parsers that agree on all tokens are the same. -/
theorem eq_of_agreeBelow {p q : FreeParser α} (h : ∀ k, AgreeBelow k p q) : p = q := by
  funext depth ts
  exact (h (ts.length + 1) depth ts (Nat.lt_succ_self _)).1

theorem eq_of_related {inner inner' : Nested FreeParser}
    (h : ∀ k, Nested.Related (fun _ p q => AgreeBelow k p q) inner inner') : inner = inner' := by
  have operand : inner.operand = inner'.operand := by
    funext least
    exact eq_of_agreeBelow fun k => (h k).operand least
  have unary : inner.unary = inner'.unary := eq_of_agreeBelow fun k => (h k).unary
  have stmt : inner.stmt = inner'.stmt := eq_of_agreeBelow fun k => (h k).stmt
  obtain ⟨operand₁, unary₁, stmt₁⟩ := inner
  cases operand
  cases unary
  cases stmt
  rfl

/-- On no tokens at all there is nothing to agree on. -/
theorem related_zero (inner inner' : Nested FreeParser) :
    Nested.Related (fun _ p q => AgreeBelow 0 p q) inner inner' :=
  ⟨fun _ _ _ short => absurd short (Nat.not_lt_zero _),
    fun _ _ short => absurd short (Nat.not_lt_zero _),
    fun _ _ short => absurd short (Nat.not_lt_zero _)⟩

/-- However often the recursion is unfolded, nothing is put back, and an expression consumes
a token. -/
theorem unfoldedParsers_self (k n : Nat) :
    Nested.Related (fun _ p q => AgreeBelow k p q) (unfoldedParsers n) (unfoldedParsers n) ∧
      AgreeUpTo k (unfoldedParsers n).expr (unfoldedParsers n).expr := by
  induction n with
  | zero =>
      have h := agreeBelow_compatible (k := k)
      exact ⟨⟨fun _ => h.refuse, h.refuse, h.refuse⟩, AgreeUpTo.refuse⟩
  | succ n ih => exact ⟨opening_related ih.1, (agreeUpTo_operatorExpr ih.1 0).deeper⟩

/-- Two rounds for each token are enough, and more change nothing. -/
theorem unfoldedParsers_related (k m n : Nat) (hm : 2 * k ≤ m) (hn : 2 * k ≤ n) :
    Nested.Related (fun _ p q => AgreeBelow k p q) (unfoldedParsers m) (unfoldedParsers n) := by
  induction k generalizing m n with
  | zero => exact related_zero _ _
  | succ k ih =>
      obtain ⟨m', rfl⟩ : ∃ m', m = m' + 2 := ⟨m - 2, by omega⟩
      obtain ⟨n', rfl⟩ : ∃ n', n = n' + 2 := ⟨n - 2, by omega⟩
      exact opening_opening_related (ih m' n' (by omega) (by omega))

/-- The unlimited parsers are those of any number of rounds that is enough. -/
theorem unlimitedParsers_related (k n : Nat) (hn : 2 * k ≤ n) :
    Nested.Related (fun _ p q => AgreeBelow k p q) (unfoldedParsers n) unlimitedParsers := by
  have enough (ts : List Token) := unfoldedParsers_related (ts.length + 1) (2 * ts.length + 2)
    (2 * ts.length + 2) (Nat.le_refl _) (Nat.le_refl _)
  have same (ts : List Token) (short : ts.length < k) :=
    unfoldedParsers_related (ts.length + 1) n (2 * ts.length + 2) (by omega) (Nat.le_refl _)
  exact ⟨fun least depth ts short =>
      (same ts short).operand least depth ts (Nat.lt_succ_self _),
    fun depth ts short => (same ts short).unary depth ts (Nat.lt_succ_self _),
    fun depth ts short => (same ts short).stmt depth ts (Nat.lt_succ_self _)⟩

/-- What holds of the runs of a parser on few tokens, for any number of them, holds of all. -/
theorem forall_of_agreeBelow {q : FreeParser α} {P : Nat → List Token → Trace α → Prop}
    (h : ∀ k, ∃ p, (∀ depth ts, P depth ts (p depth ts)) ∧ AgreeBelow k p q) (depth : Nat)
    (ts : List Token) : P depth ts (q depth ts) := by
  obtain ⟨p, holds, agrees⟩ := h (ts.length + 1)
  rw [← (agrees depth ts (Nat.lt_succ_self _)).1]
  exact holds depth ts

/-- What agrees with the same agrees. -/
theorem AgreeBelow.common {p q q' : FreeParser α} (h : AgreeBelow k p q) (h' : AgreeBelow k p q') :
    AgreeBelow k q q' := by
  intro depth ts short
  obtain ⟨same, left⟩ := h depth ts short
  obtain ⟨same', -⟩ := h' depth ts short
  exact ⟨same.symm.trans same', same ▸ left⟩

end FreeParser

open FreeParser

/-- The recursion of the unlimited parsers: a phrase that opens a level is read by opening
the level and reading the phrase with the unlimited parsers for the phrases inside it. -/
theorem unlimitedParsers_eq : unlimitedParsers = unlimitedParsers.opening := by
  apply eq_of_related
  intro k
  -- one round more of the unfolded parsers agrees with either side
  have round := unlimitedParsers_related k (2 * k + 1) (Nat.le_succ _)
  have inside := opening_related (unlimitedParsers_related k (2 * k) (Nat.le_refl _))
  exact ⟨fun least => (round.operand least).common (inside.operand least),
    round.unary.common inside.unary, round.stmt.common inside.stmt⟩

/-- No other parsers satisfy the recursion. -/
theorem eq_unlimitedParsers {parsers : Nested FreeParser} (solves : parsers = parsers.opening) :
    parsers = unlimitedParsers := by
  apply eq_of_related
  intro k
  induction k with
  | zero => exact related_zero _ _
  | succ k ih =>
      have further := opening_opening_related ih
      rw [← solves, ← solves, ← unlimitedParsers_eq, ← unlimitedParsers_eq] at further
      exact further

end ProcLang
