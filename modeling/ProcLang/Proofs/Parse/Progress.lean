import ProcLang.Parse.Rounds
import ProcLang.Proofs.FrontParts
import ProcLang.Proofs.Parse.Resumption

/-!
# Every phrase comes to an end

A run is not stopped when it makes no progress (`Run`), but it always makes some: a round that asks
for another has consumed a token, and so has every phrase that a list is made of. So a loop goes
through no more rounds than there are tokens left, and one, and no more phrases are read inside each
other than there are levels left, and one. Given so much, a run of the grammar ends as the machine
does, from every place and with every number of open levels (`Terminates`, `nestedRuns_terminate`).
-/

set_option autoImplicit false

namespace ProcLang

open TokenReader

/-! ## What lies between two places -/

/-- A machine has gone from one place to another: with as many levels open, not back, and over
tokens that are no end markers. -/
structure Passes (vector : List Token) (before after : Cursor) : Prop where
  levels : after.depth = before.depth
  forward : before.position ≤ after.position
  proper : ∀ i, before.position ≤ i → i < after.position →
    ∃ t, vector[i]? = some t ∧ t.kind ≠ .endOfInput

namespace Passes

variable {vector : List Token} {before middle after : Cursor}

theorem refl (cursor : Cursor) : Passes vector cursor cursor where
  levels := rfl
  forward := Nat.le_refl _
  proper _ low high := absurd high (Nat.not_lt.2 low)

theorem trans (first : Passes vector before middle) (second : Passes vector middle after) :
    Passes vector before after where
  levels := second.levels.trans first.levels
  forward := Nat.le_trans first.forward second.forward
  proper i low high := by
    rcases Nat.lt_or_ge i middle.position with earlier | later
    · exact first.proper i low earlier
    · exact second.proper i later high

/-- One token that is no end marker. -/
theorem one {position depth : Nat} {t : Token} (found : vector[position]? = some t)
    (proper : t.kind ≠ .endOfInput) :
    Passes vector ⟨position, depth⟩ ⟨position + 1, depth⟩ where
  levels := rfl
  forward := Nat.le_succ _
  proper i low high := by
    obtain rfl : i = position := Nat.le_antisymm (Nat.le_of_lt_succ high) low
    exact ⟨t, found, proper⟩

/-- Tokens are passed only in the vector. -/
theorem position_lt_length (h : Passes vector before after)
    (moved : before.position < after.position) : before.position < vector.length := by
  obtain ⟨t, found, -⟩ := h.proper before.position (Nat.le_refl _) moved
  exact (List.getElem?_eq_some_iff.1 found).1

/-- No end marker is passed. -/
theorem position_le {i : Nat} {t : Token} (h : Passes vector before after)
    (ahead : before.position ≤ i) (found : vector[i]? = some t) (ended : t.kind = .endOfInput) :
    after.position ≤ i := by
  refine Nat.not_lt.1 fun beyond => ?_
  obtain ⟨t', found', proper⟩ := h.proper i ahead beyond
  obtain rfl : t = t' := Option.some.inj (found.symm.trans found')
  exact proper ended

/-- No more tokens are passed than there are before the first end marker ahead. -/
theorem length_le (h : Passes vector before after) :
    after.position - before.position ≤
      ((vector.drop before.position).takeWhile (·.kind != .endOfInput)).length := by
  let run := (vector.drop before.position).take (after.position - before.position)
  have proper : ∀ t ∈ run, (t.kind != .endOfInput) = true := by
    intro t mem
    obtain ⟨i, found⟩ := List.mem_iff_getElem?.1 mem
    rw [List.getElem?_take, List.getElem?_drop] at found
    split at found
    · obtain ⟨t', found', proper⟩ :=
        h.proper (before.position + i) (Nat.le_add_right _ _) (by omega)
      obtain rfl : t = t' := Option.some.inj (found.symm.trans found')
      exact bne_iff_ne.2 proper
    · cases found
  have length : run.length = after.position - before.position := by
    rw [List.length_take, List.length_drop]
    rcases Nat.eq_or_lt_of_le h.forward with same | moved
    · omega
    · -- the last token that was passed is one of the vector
      obtain ⟨t, found, -⟩ := h.proper (after.position - 1) (by omega) (by omega)
      have inside := (List.getElem?_eq_some_iff.1 found).1
      omega
  rw [← length]
  exact length_le_takeWhile proper (List.take_prefix _ _)

end Passes

/-- Why a machine halts at a place, if it does: the current token is refused, or there is none. -/
def refusal (vector : List Token) (cursor : Cursor) : Halt :=
  match vector[cursor.position]? with
  | some t => .unexpected ⟨t.text, t.span⟩
  | none => .outOfBounds

theorem current_cases (vector : List Token) (cursor : Cursor) :
    (∃ t, vector[cursor.position]? = some t ∧
        (Machine.current : Machine vector Token) cursor = (.ok t, cursor)) ∨
      (Machine.current : Machine vector Token) cursor =
        (.error (refusal vector cursor), cursor) := by
  unfold Machine.current refusal
  cases vector[cursor.position]? with
  | none => exact .inr rfl
  | some t => exact .inl ⟨t, rfl, rfl⟩

theorem refuse_eq_refusal (vector : List Token) (α : Type) (cursor : Cursor) :
    (Machine.refuse : Machine vector α) cursor = (.error (refusal vector cursor), cursor) := by
  rcases current_cases vector cursor with ⟨t, found, here⟩ | nothing
  · unfold refusal
    rw [found]
    exact Machine.bind_ok here
  · exact Machine.bind_error nothing

/-! ## Runs that end -/

/-- From a place the run ends in the way in which the machine does. No end marker is passed; if the
machine halts, it does so because of the place that it has reached; and if it has a value for which
it has to move, it has passed a token. -/
structure TerminatesAt {vector : List Token} {rounds : Nat} {α : Type} (moving : α → Prop)
    (p : Run vector rounds α) (q : Machine vector α) (cursor : Cursor) : Prop where
  ends : p cursor = some (q cursor)
  passes : Passes vector cursor (q cursor).2
  halted : ∀ reason, (q cursor).1 = .error reason → reason = refusal vector (q cursor).2
  moved : ∀ a, (q cursor).1 = .ok a → moving a → cursor.position < (q cursor).2.position

/-- The run ends from every place behind which there are fewer tokens than a loop may have
rounds. -/
def Terminates {vector : List Token} {rounds : Nat} {α : Type} (depth : Nat) (moving : α → Prop)
    (p : Run vector rounds α) (q : Machine vector α) : Prop :=
  ∀ position, vector.length - position < rounds → TerminatesAt moving p q ⟨position, depth⟩

/-- Values for which nothing has to be passed. -/
abbrev Still {α : Type} : α → Prop := fun _ => False

/-- For every value a token has to be passed. -/
abbrev Always {α : Type} : α → Prop := fun _ => True

/-- The rounds that ask for another one. -/
def AsksAgain {σ α : Type} : Round σ α → Prop
  | .again _ => True
  | .done _ => False

section Steps

variable {vector : List Token} {rounds : Nat} {α β : Type} {moving moving' : α → Prop}
  {p p' : Run vector rounds α} {q q' : Machine vector α} {cursor middle : Cursor}

/-- What goes on from another place, ends if it ends from there. -/
theorem TerminatesAt.onward (h : TerminatesAt moving' p' q' middle) (run : p cursor = p' middle)
    (machine : q cursor = q' middle) (passes : Passes vector cursor middle)
    (move : ∀ a, moving a → moving' a ∨ cursor.position < middle.position) :
    TerminatesAt moving p q cursor where
  ends := by rw [run, machine, h.ends]
  passes := by
    rw [machine]
    exact passes.trans h.passes
  halted := by
    rw [machine]
    exact h.halted
  moved := by
    rw [machine]
    intro a value moving
    rcases move a moving with further | moved
    · exact Nat.lt_of_le_of_lt passes.forward (h.moved a value further)
    · exact Nat.lt_of_lt_of_le moved h.passes.forward

/-- What halts because of the place that it has reached. -/
theorem TerminatesAt.halting (run : p cursor = some (.error (refusal vector middle), middle))
    (machine : q cursor = (.error (refusal vector middle), middle))
    (passes : Passes vector cursor middle) : TerminatesAt moving p q cursor where
  ends := by rw [run, machine]
  passes := by
    rw [machine]
    exact passes
  halted := by
    rw [machine]
    intro reason halts
    exact (Except.error.inj halts).symm
  moved := by
    rw [machine]
    intro a value
    cases value

/-- A machine that ends has halted because of the place that it has reached, or it has a value. -/
theorem TerminatesAt.cases (h : TerminatesAt moving p q cursor) :
    (∃ next, q cursor = (.error (refusal vector next), next) ∧ Passes vector cursor next) ∨
      ∃ a next, q cursor = (.ok a, next) ∧ Passes vector cursor next ∧
        (moving a → cursor.position < next.position) := by
  obtain ⟨-, passes, halted, moved⟩ := h
  rcases machine : q cursor with ⟨result, next⟩
  rw [machine] at passes halted moved
  cases result with
  | error reason =>
      obtain rfl : reason = refusal vector next := halted reason rfl
      exact .inl ⟨next, rfl, passes⟩
  | ok a => exact .inr ⟨a, next, rfl, passes, moved a rfl⟩

end Steps

namespace Terminates

variable {vector : List Token} {rounds depth : Nat} {α β σ : Type} {moving moving' : α → Prop}

theorem mono {p : Run vector rounds α} {q : Machine vector α} (h : Terminates depth moving' p q)
    (fewer : ∀ a, moving a → moving' a) : Terminates depth moving p q := by
  intro position enough
  exact (h position enough).onward rfl rfl (.refl _) fun a move => .inl (fewer a move)

/-! ### Ways of reading -/

theorem pure {a : α} (rests : ¬moving a) :
    Terminates depth moving (Pure.pure a : Run vector rounds α) (Pure.pure a) := by
  intro position _
  refine ⟨rfl, .refl _, fun reason halts => ?_, fun a' value move => ?_⟩
  · cases halts
  · obtain rfl : a = a' := Except.ok.inj value
    exact absurd move rests

theorem refuse :
    Terminates depth moving (TokenReader.refuse : Run vector rounds α) TokenReader.refuse := by
  intro position _
  have here := refuse_eq_refusal vector α ⟨position, depth⟩
  exact .halting (congrArg some here) here (.refl _)

theorem lookingAt (pattern : List TokenKind) :
    Terminates depth Still (TokenReader.lookingAt pattern : Run vector rounds Bool)
      (TokenReader.lookingAt pattern) := by
  intro position _
  refine ⟨rfl, .refl _, fun reason halts => ?_, fun _ _ move => move.elim⟩
  cases halts

/-- Something is told of the current token. -/
theorem look (f : Token → α) :
    Terminates depth Still (Run.plain (do return f (← Machine.current)) : Run vector rounds α)
      (do return f (← Machine.current)) := by
  intro position enough
  rcases current_cases vector ⟨position, depth⟩ with ⟨t, -, here⟩ | nothing
  · have told : Terminates depth Still (Pure.pure (f t) : Run vector rounds α) (Pure.pure (f t)) :=
      pure id
    have value := Machine.bind_ok (f := fun t => (Pure.pure (f t) : Machine vector α)) here
    exact (told position enough).onward (congrArg some value) value (.refl _) fun _ => .inl
  · exact .halting (congrArg some (Machine.bind_error nothing)) (Machine.bind_error nothing)
      (.refl _)

theorem kindAhead :
    Terminates depth Still (TokenReader.kindAhead : Run vector rounds TokenKind)
      TokenReader.kindAhead :=
  look (·.kind)

theorem noteDeclaration :
    Terminates depth Still (TokenReader.noteDeclaration : Run vector rounds Unit)
      TokenReader.noteDeclaration :=
  look fun _ => ()

/-! ### Sequence, choice and loop -/

section Sequence

variable {p : Run vector rounds α} {q : Machine vector α} {f : α → Run vector rounds β}
  {g : α → Machine vector β} {needed : β → Prop}

/-- A sequence ends if its parts do; it moves where one of them does. -/
theorem sequence {moving'' : β → Prop} (hp : Terminates depth moving p q)
    (hf : ∀ a, Terminates depth moving'' (f a) (g a))
    (move : ∀ a b, needed b → moving a ∨ moving'' b) :
    Terminates depth needed (p >>= f) (q >>= g) := by
  intro position enough
  have first := hp position enough
  rcases first.cases with ⟨next, machine, passes⟩ | ⟨a, next, machine, passes, moved⟩
  · have run := first.ends.trans (congrArg some machine)
    exact .halting (Run.bind_error run) (Machine.bind_error machine) passes
  · have run := first.ends.trans (congrArg some machine)
    obtain ⟨position', depth'⟩ := next
    obtain rfl : depth' = depth := passes.levels
    have forward : position ≤ position' := passes.forward
    refine (hf a position' (by omega)).onward (Run.bind_ok run) (Machine.bind_ok machine) passes ?_
    intro b need
    exact (move a b need).symm.imp_right moved

theorem bind (hp : Terminates depth moving p q) (hf : ∀ a, Terminates depth needed (f a) (g a)) :
    Terminates depth needed (p >>= f) (q >>= g) :=
  hp.sequence hf fun _ _ => .inr

/-- Behind a phrase that moves nothing else has to. -/
theorem behind {moving'' : β → Prop} (hp : Terminates depth Always p q)
    (hf : ∀ a, Terminates depth moving'' (f a) (g a)) :
    Terminates depth needed (p >>= f) (q >>= g) :=
  hp.sequence hf fun _ _ _ => .inl trivial

end Sequence

/-- A choice ends if what it chooses from does. Where it takes a token, it moves. -/
theorem choose {accepts : TokenKind → Option β} {taken : β → String → Run vector rounds α}
    {taken' : β → String → Machine vector α} {otherwise : Run vector rounds α}
    {otherwise' : Machine vector α} (proper : accepts .endOfInput = none)
    (htaken : ∀ b text, Terminates depth moving' (taken b text) (taken' b text))
    (hotherwise : Terminates depth moving otherwise otherwise') :
    Terminates depth moving (TokenReader.choose accepts taken otherwise)
      (TokenReader.choose accepts taken' otherwise') := by
  intro position enough
  rcases current_cases vector ⟨position, depth⟩ with ⟨t, found, here⟩ | nothing
  · have kind : (TokenReader.kindAhead : Machine vector TokenKind) ⟨position, depth⟩ =
        (.ok t.kind, ⟨position, depth⟩) := Machine.bind_ok here
    cases haccepts : accepts t.kind with
    | none =>
        have machine : TokenReader.choose accepts taken' otherwise' ⟨position, depth⟩ =
            otherwise' ⟨position, depth⟩ := (Machine.bind_ok kind).trans (by simp only [haccepts])
        have run : TokenReader.choose accepts taken otherwise ⟨position, depth⟩ =
            otherwise ⟨position, depth⟩ :=
          (Run.bind_ok (congrArg some kind)).trans (by simp only [haccepts])
        exact (hotherwise position enough).onward run machine (.refl _) fun _ => .inl
    | some b =>
        have machine : TokenReader.choose accepts taken' otherwise' ⟨position, depth⟩ =
            (TokenReader.advance >>= taken' b : Machine vector α) ⟨position, depth⟩ :=
          (Machine.bind_ok kind).trans (by simp only [haccepts])
        have run : TokenReader.choose accepts taken otherwise ⟨position, depth⟩ =
            (TokenReader.advance >>= taken b : Run vector rounds α) ⟨position, depth⟩ :=
          (Run.bind_ok (congrArg some kind)).trans (by simp only [haccepts])
        -- the end marker is never accepted, so the token is consumed
        have plain : t.kind ≠ .endOfInput := by
          intro ended
          rw [ended, proper] at haccepts
          cases haccepts
        have advance : (TokenReader.advance : Machine vector String) ⟨position, depth⟩ =
            (.ok t.text, ⟨position + 1, depth⟩) := by
          show Machine.advance _ = _
          unfold Machine.advance
          rw [found]
          exact congrArg _ (if_neg plain)
        refine (htaken b t.text (position + 1) (by omega)).onward
          (run.trans (Run.bind_ok (congrArg some advance)))
          (machine.trans (Machine.bind_ok advance)) (.one found plain) ?_
        intro _ _
        exact .inr (Nat.lt_succ_self position)
  · have kind : (TokenReader.kindAhead : Machine vector TokenKind) ⟨position, depth⟩ = _ :=
      Machine.bind_error nothing
    exact .halting (Run.bind_error (congrArg some kind)) (Machine.bind_error kind) (.refl _)

theorem ite {c : Prop} [Decidable c] {p p' : Run vector rounds α} {q q' : Machine vector α}
    (yes : Terminates depth moving p q) (no : Terminates depth moving p' q') :
    Terminates depth moving (if c then p else p') (if c then q else q') := by
  split
  · exact yes
  · exact no

/-- A loop whose rounds move if they ask for another one, where there are more rounds left than
tokens. -/
theorem iterate {round : σ → Run vector rounds (Round σ α)}
    {round' : σ → Machine vector (Round σ α)}
    (hround : ∀ s, Terminates depth AsksAgain (round s) (round' s)) {left position : Nat}
    (enough : vector.length - position < rounds) (short : vector.length - position < left) (s : σ) :
    TerminatesAt Still (Run.iterate round left s) (Machine.iterate round' s) ⟨position, depth⟩ := by
  -- the induction is on the rounds that are left; each but the last one uses up a token
  induction left generalizing s position with
  | zero => exact absurd short (Nat.not_lt_zero _)
  | succ left ih =>
      have first := hround s position enough
      rcases first.cases with ⟨next, machine, passes⟩ | ⟨step, next, machine, passes, moved⟩
      · have run := first.ends.trans (congrArg some machine)
        refine .halting ?_ ?_ passes
        · simp only [Run.iterate, run]
        · rw [Machine.iterate, machine]
      · have run := first.ends.trans (congrArg some machine)
        obtain ⟨position', depth'⟩ := next
        obtain rfl : depth' = depth := passes.levels
        have forward : position ≤ position' := passes.forward
        cases step with
        | done a =>
            have ended : Terminates depth' Still (Pure.pure a : Run vector rounds α)
                (Pure.pure a) := pure id
            refine (ended position' (by omega)).onward ?_ ?_ passes fun _ => .inl
            · simp only [Run.iterate, run]
              rfl
            · rw [Machine.iterate, machine]
              rfl
        | again s' =>
            have inside : position < vector.length := passes.position_lt_length (moved trivial)
            have moved : position < position' := moved trivial
            have shorter : vector.length - position' < vector.length - position := by omega
            refine (ih (by omega) (by omega) s').onward ?_ ?_ passes fun _ => .inl
            · simp only [Run.iterate, run]
            · rw [Machine.iterate, machine]
              exact if_pos shorter

theorem loop {round : σ → Run vector rounds (Round σ α)} {round' : σ → Machine vector (Round σ α)}
    (hround : ∀ s, Terminates depth AsksAgain (round s) (round' s)) (s : σ) :
    Terminates depth Still (TokenReader.loop round s) (TokenReader.loop round' s) := by
  intro position enough
  exact iterate hround enough enough s

end Terminates

/-! ## The grammar -/

namespace Terminates

variable {vector : List Token} {rounds depth : Nat} {α : Type} {moving : α → Prop}

theorem value (a : α) : Terminates depth Still (Pure.pure a : Run vector rounds α) (Pure.pure a) :=
  pure id

/-! ### Reading common to many phrases -/

theorem expect {wanted : TokenKind} (proper : only wanted .endOfInput = none) :
    Terminates depth Always (TokenReader.expect wanted : Run vector rounds String)
      (TokenReader.expect wanted) :=
  choose proper (fun _ text => value text) refuse

theorem skip {wanted : TokenKind} (proper : only wanted .endOfInput = none) :
    Terminates depth Always (TokenReader.skip wanted : Run vector rounds Unit)
      (TokenReader.skip wanted) :=
  choose proper (fun _ _ => value ()) refuse

theorem eat {wanted : TokenKind} (proper : only wanted .endOfInput = none) :
    Terminates depth Still (TokenReader.eat wanted : Run vector rounds Bool)
      (TokenReader.eat wanted) :=
  choose proper (fun _ _ => value true) (value false)

/-- Items that move make a list that ends. -/
theorem listUntil {ended : Run vector rounds Bool} {ended' : Machine vector Bool}
    {item : Run vector rounds α} {item' : Machine vector α}
    (hended : Terminates depth Still ended ended') (hitem : Terminates depth Always item item') :
    Terminates depth Still (TokenReader.listUntil ended item)
      (TokenReader.listUntil ended' item') :=
  loop (fun _ => hended.bind fun _ => ite (pure id) (hitem.behind fun _ => value _)) _

/-- Between two items there is a comma, so the items themselves need not move. -/
theorem commaList {closing : TokenKind} {item : Run vector rounds α} {item' : Machine vector α}
    (hitem : Terminates depth moving item item') (proper : only closing .endOfInput = none) :
    Terminates depth Still (TokenReader.commaList closing item)
      (TokenReader.commaList closing item') :=
  loop (fun _ => hitem.bind fun _ => (eat proper).bind fun _ =>
    ite (pure id) ((skip rfl).behind fun _ => value _)) _

theorem parenList {item : Run vector rounds α} {item' : Machine vector α}
    (hitem : Terminates depth moving item item') :
    Terminates depth Still (TokenReader.parenList item) (TokenReader.parenList item') :=
  (eat rfl).bind fun _ => ite (value _) (commaList hitem rfl)

theorem declarator :
    Terminates depth Always (Declarator.parse : Run vector rounds Declarator) Declarator.parse :=
  (lookingAt _).bind fun _ =>
    ite ((skip rfl).behind fun _ => (expect rfl).bind fun _ => value _)
      ((expect rfl).behind fun _ => value _)

theorem param : Terminates depth Always (Param.parse : Run vector rounds Param) Param.parse :=
  (expect rfl).behind fun _ => declarator.bind fun _ => value _

/-! ### Phrases -/

variable {inner : Nested (Run vector rounds)} {inner' : Nested (Machine vector)}
  (r : Nested.Related (fun _ p q => Terminates depth Always p q) inner inner')

include r

theorem primary : Terminates depth Always inner.primary inner'.primary :=
  choose rfl (fun _ _ => value _) <|
    choose rfl (fun _ _ => value _) <|
      (skip rfl).behind fun _ => r.expr.bind fun _ => (skip rfl).bind fun _ => value _

theorem postfixRound (base : Expr) :
    Terminates depth AsksAgain (inner.postfixRound base) (inner'.postfixRound base) := by
  refine kindAhead.bind fun kind => ?_
  split
  · exact (skip rfl).behind fun _ => value _
  · exact (skip rfl).behind fun _ => value _
  · exact (skip rfl).behind fun _ => (parenList r.expr).bind fun _ => value _
  · exact (skip rfl).behind fun _ => r.expr.bind fun _ => (skip rfl).bind fun _ => value _
  · exact pure id

theorem postfixChain : Terminates depth Always inner.postfixChain inner'.postfixChain :=
  (primary r).behind fun base => loop (postfixRound r) base

theorem unaryExpr : Terminates depth Always inner.unaryExpr inner'.unaryExpr :=
  choose rfl (fun _ _ => r.unary.bind fun _ => value _) (postfixChain r)

theorem binaryRound (least : Nat) (lhs : Expr) :
    Terminates depth AsksAgain (inner.binaryRound least lhs) (inner'.binaryRound least lhs) :=
  choose rfl (fun _ _ => (r.operand _).bind fun _ => value _) (pure id)

theorem operatorExpr (least : Nat) :
    Terminates depth Always (inner.operatorExpr least) (inner'.operatorExpr least) :=
  (unaryExpr r).behind fun first => loop (binaryRound r least) first

theorem initBinding : Terminates depth Always inner.initBinding inner'.initBinding :=
  declarator.behind fun _ => (eat rfl).bind fun _ =>
    ite (r.expr.bind fun _ => value _) (value _)

theorem varDecl : Terminates depth Always inner.varDecl inner'.varDecl :=
  (expect rfl).behind fun _ => (commaList (initBinding r) rfl).bind fun _ => value _

theorem blockBody : Terminates depth Still inner.blockBody inner'.blockBody :=
  listUntil (eat rfl) r.stmt

theorem branch : Terminates depth Always inner.branch inner'.branch :=
  ((skip rfl).behind fun _ => r.expr.bind fun _ => (skip rfl).bind fun _ => value _).behind
    fun _ => r.stmt.bind fun _ => value _

theorem alternatives : Terminates depth Still inner.alternatives inner'.alternatives :=
  (listUntil ((eat rfl).bind fun _ => value _) (branch r)).bind fun _ =>
    ((eat rfl).bind fun _ => ite (r.stmt.bind fun _ => value _) (value _)).bind fun _ => value _

theorem statement : Terminates depth Always inner.statement inner'.statement := by
  refine kindAhead.bind fun kind => ?_
  split
  · exact (skip rfl).behind fun _ => (blockBody r).bind fun _ => value _
  · exact (skip rfl).behind fun _ => (branch r).bind fun _ => (alternatives r).bind fun _ => value _
  · exact (skip rfl).behind fun _ => (branch r).bind fun _ => value _
  · exact (skip rfl).behind fun _ => r.stmt.bind fun _ => value _
  · exact refuse
  · exact (skip rfl).behind fun _ => (skip rfl).bind fun _ => value _
  · exact (skip rfl).behind fun _ => (skip rfl).bind fun _ => value _
  · exact (skip rfl).behind fun _ => r.expr.bind fun _ => (skip rfl).bind fun _ => value _
  · exact (varDecl r).behind fun _ => value _
  · exact r.expr.behind fun _ => (skip rfl).bind fun _ => value _

theorem funcDecl : Terminates depth Always inner.funcDecl inner'.funcDecl :=
  (expect rfl).behind fun _ => declarator.bind fun _ => (skip rfl).bind fun _ =>
    (parenList param).bind fun _ => (eat rfl).bind fun _ =>
      ite ((blockBody r).bind fun _ => value _) ((skip rfl).bind fun _ => value _)

theorem declaration : Terminates depth Always inner.declaration inner'.declaration :=
  noteDeclaration.bind fun _ => (lookingAt _).bind fun _ => (lookingAt _).bind fun _ =>
    ite ((funcDecl r).behind fun _ => value _)
      ((lookingAt _).bind fun _ => (lookingAt _).bind fun _ =>
        ite ((varDecl r).behind fun _ => value _) refuse)

theorem program : Terminates depth Still inner.program inner'.program :=
  (listUntil (kindAhead.bind fun _ => value _) (declaration r)).bind fun _ => value _

end Terminates

/-! ## Levels -/

section Levels

variable {vector : List Token} {rounds depth limit : Nat} {α : Type} {moving : α → Prop}

/-- A level that is opened is closed again. -/
theorem Terminates.deeper {p : Run vector rounds α} {q : Machine vector α} (room : depth < limit)
    (h : Terminates (depth + 1) moving p q) :
    Terminates depth moving (p.deeper limit) (q.deeper limit) := by
  intro position enough
  have inside := h position enough
  have machine : q.deeper limit ⟨position, depth⟩ = ((q ⟨position, depth + 1⟩).1,
      ⟨(q ⟨position, depth + 1⟩).2.position, (q ⟨position, depth + 1⟩).2.depth - 1⟩) := by
    unfold Machine.deeper
    rw [if_neg (Nat.not_le.2 room)]
  have run : p.deeper limit ⟨position, depth⟩ = some (q.deeper limit ⟨position, depth⟩) := by
    rw [machine]
    unfold Run.deeper
    rw [if_neg (Nat.not_le.2 room), inside.ends]
    rfl
  have levels : (q ⟨position, depth + 1⟩).2.depth - 1 = depth := by
    rw [inside.passes.levels, Nat.add_sub_cancel]
  refine ⟨run, ?_, ?_, ?_⟩
  all_goals rw [machine]
  · exact ⟨levels, inside.passes.forward, inside.passes.proper⟩
  · exact inside.halted
  · exact inside.moved

/-- With all levels open, whatever comes is refused. -/
theorem Terminates.deeper_limit (p : Run vector rounds α) (q : Machine vector α)
    (full : limit ≤ depth) : Terminates depth moving (p.deeper limit) (q.deeper limit) := by
  intro position enough
  have refused : Terminates depth moving (TokenReader.refuse : Run vector rounds α)
      TokenReader.refuse := .refuse
  exact (refused position enough).onward (if_pos full) (if_pos full) (.refl _) fun _ => .inl

/-- As many phrases may be read inside each other as there are levels left, and one. -/
theorem nestedRuns_terminate {calls n : Nat} (enough : limit - depth < calls)
    (enough' : limit - depth < n) :
    Nested.Related (fun _ p q => Terminates depth Always p q) (nestedRuns vector rounds limit calls)
      (nestedMachines vector limit n) := by
  induction calls generalizing depth n with
  | zero => exact absurd enough (Nat.not_lt_zero _)
  | succ calls ih =>
      cases n with
      | zero => exact absurd enough' (Nat.not_lt_zero _)
      | succ n =>
          rcases Nat.lt_or_ge depth limit with room | full
          · have inner := ih (show limit - (depth + 1) < calls by omega)
              (show limit - (depth + 1) < n by omega)
            exact ⟨fun least => .deeper room (.operatorExpr inner least),
              .deeper room (.unaryExpr inner), .deeper room (.statement inner)⟩
          · let runs := nestedRuns vector rounds limit calls
            let machines := nestedMachines vector limit n
            exact ⟨fun least => .deeper_limit (runs.operatorExpr least)
                (machines.operatorExpr least) full,
              .deeper_limit runs.unaryExpr machines.unaryExpr full,
              .deeper_limit runs.statement machines.statement full⟩

end Levels

/-! ## Calls -/

section Calls

variable {vector : List Token} {rounds calls : Nat} {cursor : Cursor}

/-- One call ends, and moves if it has read anything but a program. -/
theorem answer_terminates (enough : vector.length - cursor.position < rounds)
    (room : nestingLimit - cursor.depth < calls) (request : Request) :
    TerminatesAt (fun _ => request ≠ .program) (Run.answer vector rounds calls request)
      (Machine.answer vector request) cursor := by
  have inner : Nested.Related (fun _ p q => Terminates cursor.depth Always p q)
      (nestedRuns vector rounds nestingLimit calls)
      (nestedMachines vector nestingLimit (nestingLimit + 1)) :=
    nestedRuns_terminate room (by omega)
  cases request with
  | program =>
      have ends : Terminates cursor.depth Still (Run.answer vector rounds calls .program)
          (Machine.answer vector .program) := (Terminates.program inner).bind fun _ => .value _
      exact (ends.mono fun _ program => program rfl) cursor.position enough
  | decl => exact ((Terminates.declaration inner).behind fun _ => .value _) cursor.position enough
  | stmt => exact (inner.stmt.behind fun _ => .value _) cursor.position enough
  | expr => exact (inner.expr.behind fun _ => .value _) cursor.position enough

/-- Every call ends with as many rounds as there are tokens left, and one, and likewise for the
levels. -/
theorem answer_terminates_enough (vector : List Token) (cursor : Cursor) (request : Request) :
    TerminatesAt (fun _ => request ≠ .program)
      (Run.answer vector (vector.length - cursor.position + 1)
        (nestingLimit - cursor.depth + 1) request)
      (Machine.answer vector request) cursor :=
  answer_terminates (Nat.lt_succ_self _) (Nat.lt_succ_self _) request

/-- A call on a stream, whose loops are watched, does what a run does without that. -/
theorem answer_unwatched {stream : TokenStream} {position : Nat}
    (stands : Stands vector stream position) (enough : vector.length - position < rounds)
    (room : nestingLimit < calls) (request : Request) :
    ∃ consumed, stream.ahead = consumed ++ (stream.answer request).left.ahead ∧
      Run.answer vector rounds calls request ⟨position, 0⟩ =
        some ((stream.answer request).result.mapError .unexpected,
          ⟨position + consumed.length, 0⟩) := by
  obtain ⟨consumed, split, machine⟩ := answer_eq stands request
  have same : Run.answer vector rounds calls request ⟨position, 0⟩ =
      some (Machine.answer vector request ⟨position, 0⟩) :=
    (answer_terminates enough room request).ends
  exact ⟨consumed, split, same.trans (congrArg some machine)⟩

/-- A sequence of calls goes on from one place to the next. -/
theorem passes_answers (vector : List Token) (cursor : Cursor) (requests : List Request) :
    Passes vector cursor
      (requests.foldl (fun place request => (Machine.answer vector request place).2) cursor) := by
  induction requests generalizing cursor with
  | nil => exact .refl cursor
  | cons request requests ih =>
      exact (answer_terminates_enough vector cursor request).passes.trans (ih _)

/-- Where there is an end marker ahead, a call has a value or an error of the language. -/
theorem answer_unexpected {t : Token} (mem : t ∈ vector.drop cursor.position)
    (ended : t.kind = .endOfInput) (request : Request) :
    ∃ result : Except SyntaxError Phrase,
      (Machine.answer vector request cursor).1 = result.mapError .unexpected := by
  obtain ⟨i, found⟩ := List.mem_iff_getElem?.1 mem
  rw [List.getElem?_drop] at found
  rcases (answer_terminates_enough vector cursor request).cases with
    ⟨next, machine, passes⟩ | ⟨a, next, machine, -, -⟩
  · -- the place that is reached is not behind the end marker
    have reached := passes.position_le (Nat.le_add_right _ i) found ended
    have inside := (List.getElem?_eq_some_iff.1 found).1
    refine ⟨.error ⟨vector[next.position].text, vector[next.position].span⟩, ?_⟩
    rw [machine, refusal, List.getElem?_eq_getElem (Nat.lt_of_le_of_lt reached inside)]
    rfl
  · exact ⟨.ok a, congrArg Prod.fst machine⟩

end Calls

/-- Every phrase comes to an end, and does so without the test that a machine makes of its rounds:
a run that is given more rounds for a loop than there are tokens left, and more phrases inside each
other than there are levels left, is never cut off and gives what the machine gives. So it is with
each request, and with the lists in it: the statements of a block, the arguments of a call, the
parameters of a function and the variables of a declaration. What is read of a declaration, a
statement or an expression, also of one without an operator or a sign before it, is at least one
token. Calls that follow each other, whatever their results, consume together no more tokens than
there are before the first end marker ahead; and if there is one ahead, no call reads behind the
vector or opens more levels than it is built for. A stream that has the tokens up to this marker
ahead, with no level open, gives the same answer and consumes as many of them. -/
theorem reading_ends (vector : List Token) (rounds calls : Nat) (cursor : Cursor)
    (enough : vector.length - cursor.position < rounds)
    (room : nestingLimit - cursor.depth < calls) :
    let runs := nestedRuns vector rounds nestingLimit calls
    let machines := nestedMachines vector nestingLimit (nestingLimit + 1)
    (∀ request, TerminatesAt (fun _ => request ≠ .program) (Run.answer vector rounds calls request)
      (Machine.answer vector request) cursor) ∧
    TerminatesAt Always runs.unaryExpr machines.unaryExpr cursor ∧
    TerminatesAt Always runs.postfixChain machines.postfixChain cursor ∧
    TerminatesAt Still runs.blockBody machines.blockBody cursor ∧
    TerminatesAt Still (parenList runs.expr) (parenList machines.expr) cursor ∧
    TerminatesAt Still (parenList Param.parse : Run vector rounds (List Param))
      (parenList Param.parse) cursor ∧
    TerminatesAt Still (commaList .semicolon runs.initBinding)
      (commaList .semicolon machines.initBinding) cursor ∧
    (∀ requests : List Request,
      let after :=
        requests.foldl (fun place request => (Machine.answer vector request place).2) cursor
      after.depth = cursor.depth ∧ cursor.position ≤ after.position ∧
        after.position - cursor.position ≤
          ((vector.drop cursor.position).takeWhile (·.kind != .endOfInput)).length) ∧
    ((∃ t ∈ vector.drop cursor.position, t.kind = .endOfInput) → ∀ request,
      ∃ result : Except SyntaxError Phrase,
        (Machine.answer vector request cursor).1 = result.mapError .unexpected) ∧
    (cursor.depth = 0 → ∀ stream, Stands vector stream cursor.position → ∀ request,
      ∃ consumed, stream.ahead = consumed ++ (stream.answer request).left.ahead ∧
        Run.answer vector rounds calls request cursor =
          some ((stream.answer request).result.mapError .unexpected,
            ⟨cursor.position + consumed.length, 0⟩)) := by
  intro runs machines
  have inner : Nested.Related (fun _ p q => Terminates cursor.depth Always p q) runs machines :=
    nestedRuns_terminate room (by omega)
  have here {α : Type} {moving : α → Prop} {p : Run vector rounds α} {q : Machine vector α}
      (h : Terminates cursor.depth moving p q) : TerminatesAt moving p q cursor :=
    h cursor.position enough
  refine ⟨answer_terminates enough room, here (.unaryExpr inner), here (.postfixChain inner),
    here (.blockBody inner), here (.parenList inner.expr), here (.parenList .param),
    here (.commaList (.initBinding inner) rfl), fun requests => ?_, ?_, ?_⟩
  · have passes := passes_answers vector cursor requests
    exact ⟨passes.levels, passes.forward, passes.length_le⟩
  · rintro ⟨t, mem, ended⟩ request
    exact answer_unexpected mem ended request
  · intro level stream stands request
    obtain ⟨position, depth⟩ := cursor
    obtain rfl : depth = 0 := level
    exact answer_unwatched stands enough room request

/-- The tokens of `{ x;`, without an end marker. -/
def unclosedBlock : List Token :=
  [⟨⟨.lbrace, "\x7b"⟩, ⟨0, 1⟩⟩, ⟨⟨.ident, "x"⟩, ⟨2, 3⟩⟩, ⟨⟨.semicolon, ";"⟩, ⟨3, 4⟩⟩]

/-- A block that is not closed. Without an end marker the loop over its statements goes on until
there is no token left, here with three levels left; with one it ends at the marker. -/
theorem reading_ends_unclosed :
    let marked := closeTokens unclosedBlock
    let stream := TokenStream.ofTokens unclosedBlock
    (unclosedBlock.length - 0 < 4 ∧ nestingLimit - 253 < 4 ∧
      Run.answer unclosedBlock 4 4 .stmt ⟨0, 253⟩ = some (.error .outOfBounds, ⟨3, 253⟩) ∧
      Machine.answer unclosedBlock .stmt ⟨0, 253⟩ = (.error .outOfBounds, ⟨3, 253⟩)) ∧
    marked.length - 0 < 5 ∧ nestingLimit - 0 < 257 ∧ Stands marked stream 0 ∧
      (∃ t ∈ marked.drop 0, t.kind = .endOfInput) ∧
      (∃ result : Except SyntaxError Phrase,
        (Machine.answer marked .stmt ⟨0, 0⟩).1 = result.mapError .unexpected) ∧
      ∃ consumed, stream.ahead = consumed ++ (stream.answer .stmt).left.ahead ∧
        Run.answer marked 5 257 .stmt ⟨0, 0⟩ =
          some ((stream.answer .stmt).result.mapError .unexpected, ⟨0 + consumed.length, 0⟩) := by
  intro marked stream
  have run : Run.answer unclosedBlock 4 4 .stmt ⟨0, 253⟩ = some (.error .outOfBounds, ⟨3, 253⟩) :=
    rfl
  have same := ((reading_ends unclosedBlock 4 4 ⟨0, 253⟩ (by decide) (by decide)).1 .stmt).ends
  have ended : ∃ t ∈ marked.drop 0, t.kind = .endOfInput := by decide
  have stands : Stands marked stream 0 := ofTokensFrom_stands 0 unclosedBlock
  obtain ⟨-, -, -, -, -, -, -, -, within, unwatched⟩ :=
    reading_ends marked 5 257 ⟨0, 0⟩ (by decide) (by decide)
  exact ⟨⟨by decide, by decide, run, Option.some.inj (same.symm.trans run)⟩, by decide, by decide,
    stands, ended, within ended .stmt, unwatched rfl stream stands .stmt⟩

end ProcLang
