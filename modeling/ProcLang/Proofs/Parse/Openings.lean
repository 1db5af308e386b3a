import ProcLang.Proofs.Parse.Recursion
import ProcLang.Proofs.Tree.Levels

/-!
# The levels opened on the way to a tree

Where an unlimited parser succeeds, the tokens it consumed and the levels it opened are the
extent of the tree it gives (`unlimitedParsers_program_tracks`). No condition is put on the
tokens: their texts need not be lexemes of their kinds.

`p.Tracks good` says of every success of `p` that its value and the extent of what was
consumed are `good`. Every way of reading has one rule, sequence, choice and loop included,
so that the extent of a phrase is found by following its parser.
-/

set_option autoImplicit false

namespace ProcLang

open TokenReader Extent

/-- An opening, seen in the tokens that its place counts. -/
def Opening.within (whole : List Token) (o : Opening) : LevelOpened :=
  ⟨o.level, whole.drop o.place⟩

namespace FreeParser

variable {α β σ : Type}

/-- On every success, the tokens consumed and the levels opened are those of an extent that
is `good` for the value. -/
def Tracks (p : FreeParser α) (good : α → Extent → Prop) : Prop :=
  ∀ depth (whole : List Token) place a, (p depth (whole.drop place)).value = some a →
    ∃ x, good a x ∧ (p depth (whole.drop place)).rest = whole.drop (place + x.length) ∧
      (p depth (whole.drop place)).opened = (x.openings depth place).map (Opening.within whole)

variable {good : α → Extent → Prop}

theorem Tracks.mono {p : FreeParser α} {good' : α → Extent → Prop} (h : p.Tracks good)
    (hgood : ∀ a x, good a x → good' a x) : p.Tracks good' := by
  intro depth whole place a accepted
  obtain ⟨x, hx, track⟩ := h depth whole place a accepted
  exact ⟨x, hgood a x hx, track⟩

theorem tracks_pure {a : α} (h : good a nothing) : (pure a : FreeParser α).Tracks good := by
  intro depth whole place b accepted
  obtain rfl : a = b := Option.some.inj accepted
  exact ⟨nothing, h, rfl, rfl⟩

theorem tracks_refuse : (TokenReader.refuse : FreeParser α).Tracks good := by
  intro depth whole place a accepted
  exact absurd accepted.symm (Option.some_ne_none a)

/-- Looking at the tokens ahead consumes none of them. -/
theorem tracks_look {p : Parser α} (looks : ∀ ts, (p ts).rest = ts) :
    (flat p).Tracks fun _ x => x = nothing := by
  intro depth whole place a _
  exact ⟨nothing, rfl, looks _, rfl⟩

theorem tracks_advance : (TokenReader.advance : FreeParser String).Tracks fun _ x => x = token := by
  intro depth whole place text accepted
  refine ⟨token, rfl, ?_, rfl⟩
  show (Parser.advance (whole.drop place)).rest = whole.drop (place + 1)
  replace accepted : (Parser.advance (whole.drop place)).value = some text := accepted
  rw [← List.drop_drop]
  generalize whole.drop place = ts at accepted ⊢
  cases ts with
  | nil => exact absurd accepted.symm (Option.some_ne_none text)
  | cons t ts => rfl

/-- What is consumed by a sequence is what its parts consume, one behind the other. -/
theorem Tracks.bind {p : FreeParser β} {first : β → Extent → Prop} {f : β → FreeParser α}
    (hp : p.Tracks first) (hf : ∀ b x, first b x → (f b).Tracks fun a y => good a (x ++ y)) :
    (p >>= f).Tracks good := by
  intro depth whole place a accepted
  cases hvalue : (p depth (whole.drop place)).value with
  | none =>
      rw [bind_none hvalue] at accepted
      exact absurd accepted.symm (Option.some_ne_none a)
  | some b =>
      obtain ⟨x, hx, rest, opened⟩ := hp depth whole place b hvalue
      rw [bind_some hvalue, rest] at accepted
      obtain ⟨y, hy, rest', opened'⟩ := hf b x hx depth whole (place + x.length) a accepted
      refine ⟨x ++ y, hy, ?_, ?_⟩
      · rw [bind_some hvalue, rest, append_length, ← Nat.add_assoc]
        exact rest'
      · rw [bind_some hvalue, rest, append_openings, List.map_append, ← opened, ← opened']

/-- What only looks ahead adds nothing to what follows it. -/
theorem tracks_look_bind {p : Parser β} (looks : ∀ ts, (p ts).rest = ts) {f : β → FreeParser α}
    (hf : ∀ b, (f b).Tracks good) : (flat p >>= f).Tracks good := by
  apply (tracks_look looks).bind
  rintro b _ rfl
  simpa only [nothing_append] using hf b

theorem Tracks.choose {accepts : TokenKind → Option β} {taken : β → String → FreeParser α}
    {otherwise : FreeParser α}
    (htaken : ∀ b text, (taken b text).Tracks fun a x => good a (token ++ x))
    (hotherwise : otherwise.Tracks good) : (choose accepts taken otherwise).Tracks good := by
  apply tracks_look_bind (p := Parser.kindAhead) fun _ => rfl
  intro kind
  cases accepts kind with
  | none => exact hotherwise
  | some b =>
      apply tracks_advance.bind
      rintro text _ rfl
      exact htaken b text

theorem tracks_expect {wanted : TokenKind} :
    (expect wanted : FreeParser String).Tracks fun _ x => x = token :=
  .choose (fun _ _ => tracks_pure (append_nothing token)) tracks_refuse

theorem tracks_skip {wanted : TokenKind} :
    (skip wanted : FreeParser Unit).Tracks fun _ x => x = token :=
  .choose (fun _ _ => tracks_pure (append_nothing token)) tracks_refuse

/-- A mark that is wanted stands before what follows it. -/
theorem tracks_skip_bind {wanted : TokenKind} {f : Unit → FreeParser α}
    (hf : (f ()).Tracks fun a x => good a (token ++ x)) : (skip wanted >>= f).Tracks good := by
  apply tracks_skip.bind
  rintro _ _ rfl
  exact hf

theorem tracks_expect_bind {wanted : TokenKind} {f : String → FreeParser α}
    (hf : ∀ text, (f text).Tracks fun a x => good a (token ++ x)) :
    (expect wanted >>= f).Tracks good := by
  apply tracks_expect.bind
  rintro text _ rfl
  exact hf text

/-- A mark that may stand here stands before what follows it, or is not there. -/
theorem tracks_eat_bind {wanted : TokenKind} {f : Bool → FreeParser α}
    (yes : (f true).Tracks fun a x => good a (token ++ x)) (no : (f false).Tracks good) :
    (eat wanted >>= f).Tracks good := by
  have eaten : (eat wanted : FreeParser Bool).Tracks fun b x => x = if b then token else nothing :=
    .choose (fun _ _ => tracks_pure (append_nothing token)) (tracks_pure rfl)
  apply eaten.bind
  rintro b _ rfl
  cases b with
  | true => exact yes
  | false =>
      show (f false).Tracks fun a x => good a (nothing ++ x)
      simpa only [nothing_append] using no

/-- A parser in a level of its own. -/
theorem Tracks.deeper {p : FreeParser α} {inside : α → Extent → Prop} (h : p.Tracks inside)
    (hgood : ∀ a x, inside a x → good a (nest x)) : p.deeper.Tracks good := by
  intro depth whole place a accepted
  obtain ⟨x, hx, rest, opened⟩ := h (depth + 1) whole place a accepted
  refine ⟨nest x, hgood a x hx, rest, ?_⟩
  show _ :: (p (depth + 1) (whole.drop place)).opened = _
  rw [opened]
  rfl

/-- What a round adds to the extent `x` of those before it: a good end, or the invariant. -/
abbrev RoundTracks (inv : σ → Extent → Prop) (good : α → Extent → Prop) (x : Extent) :
    Round σ α → Extent → Prop
  | .done a, y => good a (x ++ y)
  | .again next, y => inv next (x ++ y)

/-- The rule for loops: an invariant of the state and of the extent of the rounds so far. -/
theorem tracks_loop {round : σ → FreeParser (Round σ α)} (inv : σ → Extent → Prop)
    (keeps : ∀ s x, inv s x → (round s).Tracks (RoundTracks inv good x))
    {s : σ} (start : inv s nothing) : (TokenReader.loop round s : FreeParser α).Tracks good := by
  intro depth whole place a accepted
  -- the rounds to come are appended to those before, whose extent is `x`
  suffices h : ∀ x, inv s x → ∃ y, good a (x ++ y) ∧
      (iterate round s depth (whole.drop place)).rest = whole.drop (place + y.length) ∧
        (iterate round s depth (whole.drop place)).opened =
          (y.openings depth place).map (Opening.within whole) by
    obtain ⟨y, hy, track⟩ := h nothing start
    exact ⟨y, by simpa only [nothing_append] using hy, track⟩
  clear start
  replace accepted : (iterate round s depth (whole.drop place)).value = some a := accepted
  generalize htokens : whole.drop place = ts at accepted ⊢
  fun_induction iterate round s depth ts generalizing place with
  | case1 s ts first hvalue => exact absurd accepted.symm (Option.some_ne_none a)
  | case2 s ts first b hvalue =>
      intro x hx
      subst htokens
      obtain rfl : b = a := Option.some.inj accepted
      exact keeps s x hx depth whole place _ hvalue
  | case3 s ts first next hvalue shorter others tail =>
      intro x hx
      subst htokens
      obtain ⟨y, hy, rest, opened⟩ := keeps s x hx depth whole place _ hvalue
      obtain ⟨z, hz, rest', opened'⟩ := tail (place + y.length) rest.symm accepted (x ++ y) hy
      refine ⟨y ++ z, append_assoc x y z ▸ hz, ?_, ?_⟩
      · rw [append_length, ← Nat.add_assoc]
        exact rest'
      · rw [append_openings, List.map_append, ← opened, ← opened']
  | case4 s ts first next hvalue stuck => exact absurd accepted.symm (Option.some_ne_none a)

/-! ## Lists -/

section Lists

variable {item : FreeParser α} {E : α → Extent} {P : α → Prop}

/-- The items up to an end: `stay` is consumed before each of them and `stop` at the end. -/
theorem tracks_listUntil {ended : FreeParser Bool} {stay stop : Extent}
    (hended : ended.Tracks fun b x => x = if b then stop else stay)
    (hitem : item.Tracks fun a x => x = E a ∧ P a) :
    (listUntil ended item).Tracks fun as x =>
      x = concat (as.map fun a => stay ++ E a) ++ stop ∧ ∀ a ∈ as, P a := by
  apply tracks_loop fun items x =>
    x = concat (items.reverse.map fun a => stay ++ E a) ∧ ∀ a ∈ items, P a
  · rintro items _ ⟨rfl, properties⟩
    apply hended.bind
    rintro b _ rfl
    cases b with
    | true =>
        apply tracks_pure
        refine ⟨by simp, fun a mem => properties a (List.mem_reverse.1 mem)⟩
    | false =>
        apply hitem.bind
        rintro a _ ⟨rfl, property⟩
        apply tracks_pure
        exact ⟨by simp, List.forall_mem_cons.2 ⟨property, properties⟩⟩
  · exact ⟨rfl, fun a mem => absurd mem List.not_mem_nil⟩

/-- The items of a comma list, each with a comma or the closing mark behind it. -/
theorem tracks_commaList {closing : TokenKind} (hitem : item.Tracks fun a x => x = E a ∧ P a) :
    (commaList closing item).Tracks fun as x =>
      x = commaSeparated (as.map E) ++ token ∧ ∀ a ∈ as, P a := by
  have counted : (commaList closing item).Tracks fun as x =>
      as ≠ [] ∧ x = concat (as.map fun a => E a ++ token) ∧ ∀ a ∈ as, P a := by
    apply tracks_loop fun items x =>
      x = concat (items.reverse.map fun a => E a ++ token) ∧ ∀ a ∈ items, P a
    · rintro items _ ⟨rfl, properties⟩
      apply hitem.bind
      rintro a _ ⟨rfl, property⟩
      apply tracks_eat_bind
      · apply tracks_pure
        exact ⟨by simp, by simp, forall_mem_reverse_cons property properties⟩
      · apply tracks_skip_bind
        apply tracks_pure
        exact ⟨by simp, List.forall_mem_cons.2 ⟨property, properties⟩⟩
    · exact ⟨rfl, fun a mem => absurd mem List.not_mem_nil⟩
  apply counted.mono
  rintro as x ⟨nonempty, rfl, properties⟩
  refine ⟨?_, properties⟩
  rw [commaSeparated_append_token (fun h => nonempty (List.map_eq_nil_iff.1 h)), List.map_map]
  rfl

theorem tracks_parenList (hitem : item.Tracks fun a x => x = E a ∧ P a) :
    (parenList item).Tracks fun as x =>
      x = commaSeparated (as.map E) ++ token ∧ ∀ a ∈ as, P a := by
  apply tracks_eat_bind
  · apply tracks_pure
    exact ⟨by simp [commaSeparated], fun a mem => absurd mem List.not_mem_nil⟩
  · exact tracks_commaList hitem

end Lists

/-! ## Phrases -/

/-- What a round of an expression adds behind the expression that it began with. -/
def Extends (before : Expr) : Round Expr Expr → Extent → Prop
  | .done e, x => before.extent ++ x = e.extent
  | .again e, x => before.extent ++ x = e.extent

/-- An expression that is extended round by round has the extent of what it becomes. -/
theorem tracks_extending {first : FreeParser Expr} {round : Expr → FreeParser (Round Expr Expr)}
    (hfirst : first.Tracks fun e x => x = e.extent) (hround : ∀ e, (round e).Tracks (Extends e)) :
    (first >>= fun e => TokenReader.loop round e).Tracks fun e x => x = e.extent := by
  apply hfirst.bind
  rintro start _ rfl
  apply tracks_loop fun e x => start.extent ++ x = e.extent
  · intro e x hx
    apply (hround e).mono
    intro next y hy
    cases next with
    | done e' =>
        show start.extent ++ (x ++ y) = e'.extent
        rw [← append_assoc, hx]
        exact hy
    | again e' =>
        show start.extent ++ (x ++ y) = e'.extent
        rw [← append_assoc, hx]
        exact hy
  · exact append_nothing _

/-- The nested phrases are read with the extents of their trees, in levels of their own. -/
structure NestedTracks (inner : Nested FreeParser) : Prop where
  operand : ∀ least, (inner.operand least).Tracks fun e x => x = nest e.extent
  unary : inner.unary.Tracks fun e x => x = nest e.extent
  stmt : inner.stmt.Tracks fun s x => x = s.extent

theorem declarator_tracks : (Declarator.parse : FreeParser Declarator).Tracks
    fun d x => x = d.extent := by
  apply tracks_look_bind (p := Parser.lookingAt _) fun _ => rfl
  intro pointer
  cases pointer with
  | true =>
      apply tracks_skip_bind
      apply tracks_expect_bind
      intro name
      exact tracks_pure (by simp [Declarator.extent])
  | false =>
      apply tracks_expect_bind
      intro name
      exact tracks_pure (append_nothing token)

/-- A parameter that is read has no initial value, so it opens no level. -/
theorem param_tracks : (Param.parse : FreeParser Param).Tracks
    fun p x => x = p.extent ∧ p.extent.Opens 0 := by
  apply tracks_expect_bind
  intro typeName
  apply declarator_tracks.bind
  rintro d _ rfl
  apply tracks_pure
  exact ⟨by simp [Param.extent, Binding.extent], Param.extent_opens ⟨typeName, ⟨d, none⟩⟩⟩

section Phrases

variable {inner : Nested FreeParser} (r : NestedTracks inner)

include r

theorem expr_tracks : inner.expr.Tracks fun e x => x = nest e.extent :=
  r.operand 0

/-- A phrase that begins with an expression in a level of its own. -/
theorem expr_bind {f : Expr → FreeParser α}
    (hf : ∀ e, (f e).Tracks fun a x => good a (nest e.extent ++ x)) :
    (inner.expr >>= f).Tracks good := by
  apply (expr_tracks r).bind
  rintro e _ rfl
  exact hf e

theorem primary_tracks : inner.primary.Tracks fun e x => x = e.extent := by
  apply Tracks.choose
  · intro family text
    exact tracks_pure (append_nothing token)
  apply Tracks.choose
  · intro _ name
    exact tracks_pure (append_nothing token)
  apply tracks_skip_bind
  apply expr_bind r
  intro e
  apply tracks_skip_bind
  exact tracks_pure (by simp [Expr.extent, between])

theorem args_tracks : (parenList inner.expr).Tracks fun es x =>
    x = commaSeparated (Expr.extentEach es) ++ token := by
  have item : inner.expr.Tracks fun e x => x = nest e.extent ∧ True :=
    (expr_tracks r).mono fun e x h => ⟨h, trivial⟩
  apply (tracks_parenList item).mono
  rintro es x ⟨rfl, -⟩
  rw [Expr.extentEach_eq_map]

/-- A link of a postfix chain adds the tokens that stand behind the base. -/
theorem postfixRound_tracks (base : Expr) : (inner.postfixRound base).Tracks (Extends base) := by
  apply tracks_look_bind (p := Parser.kindAhead) fun _ => rfl
  intro kind
  split
  · apply tracks_skip_bind
    exact tracks_pure (by simp [Extends, Expr.extent])
  · apply tracks_skip_bind
    exact tracks_pure (by simp [Extends, Expr.extent])
  · apply tracks_skip_bind
    apply (args_tracks r).bind
    rintro args _ rfl
    exact tracks_pure (by simp [Extends, Expr.extent, between])
  · apply tracks_skip_bind
    apply expr_bind r
    intro index
    apply tracks_skip_bind
    exact tracks_pure (by simp [Extends, Expr.extent, between])
  · exact tracks_pure (append_nothing _)

theorem unaryExpr_tracks : inner.unaryExpr.Tracks fun e x => x = e.extent := by
  apply Tracks.choose
  · intro _ op
    apply r.unary.bind
    rintro arg _ rfl
    exact tracks_pure (by simp [Expr.extent])
  · exact tracks_extending (primary_tracks r) (postfixRound_tracks r)

theorem binaryRound_tracks (least : Nat) (lhs : Expr) :
    (inner.binaryRound least lhs).Tracks (Extends lhs) := by
  apply Tracks.choose
  · intro strength op
    apply (r.operand strength).bind
    rintro rhs _ rfl
    exact tracks_pure (by simp [Extends, Expr.extent])
  · exact tracks_pure (append_nothing _)

theorem operatorExpr_tracks (least : Nat) :
    (inner.operatorExpr least).Tracks fun e x => x = e.extent :=
  tracks_extending (unaryExpr_tracks r) (binaryRound_tracks r least)

/-! ### Variables -/

theorem initBinding_tracks : inner.initBinding.Tracks fun b x => x = b.extent := by
  apply declarator_tracks.bind
  rintro d _ rfl
  apply tracks_eat_bind
  · apply expr_bind r
    intro e
    exact tracks_pure (by simp [Binding.extent])
  · exact tracks_pure (append_nothing _)

theorem varDecl_tracks : inner.varDecl.Tracks fun d x => x = d.extent := by
  have item : inner.initBinding.Tracks fun b x => x = b.extent ∧ True :=
    (initBinding_tracks r).mono fun b x h => ⟨h, trivial⟩
  apply tracks_expect_bind
  intro typeName
  apply (tracks_commaList item).bind
  rintro bindings _ ⟨rfl, -⟩
  exact tracks_pure (by simp [VarDecl.extent, between])

/-! ### Statements -/

theorem blockBody_tracks : inner.blockBody.Tracks fun ss x =>
    x = concat (ss.map Stmt.extent) ++ token := by
  have ended : (eat .rbrace : FreeParser Bool).Tracks fun b x =>
      x = if b then token else nothing :=
    .choose (fun _ _ => tracks_pure (append_nothing token)) (tracks_pure rfl)
  have item : inner.stmt.Tracks fun s x => x = s.extent ∧ True :=
    r.stmt.mono fun s x h => ⟨h, trivial⟩
  apply (tracks_listUntil ended item).mono
  rintro ss x ⟨rfl, -⟩
  simp

/-- A condition in parentheses and the statement behind it. -/
theorem branch_tracks : inner.branch.Tracks fun b x =>
    x = between (nest b.1.extent) ++ b.2.extent := by
  have condition : inner.condition.Tracks fun e x => x = between (nest e.extent) := by
    apply tracks_skip_bind
    apply expr_bind r
    intro e
    apply tracks_skip_bind
    exact tracks_pure (by simp [between])
  apply condition.bind
  rintro test _ rfl
  apply r.stmt.bind
  rintro body _ rfl
  exact tracks_pure (by simp)

theorem elseClause_tracks : inner.elseClause.Tracks fun a x => x = a.extent := by
  apply tracks_eat_bind
  · apply r.stmt.bind
    rintro body _ rfl
    exact tracks_pure (by simp [Alternatives.extent])
  · exact tracks_pure rfl

omit r in
/-- The branches of a conditional and what stands behind the last of them. -/
theorem extent_branches (branches : List (Expr × Stmt)) (last : Alternatives) :
    (branches.foldr (fun b rest => Alternatives.elseIf b.1 b.2 rest) last).extent =
      concat (branches.map fun b => token ++ (between (nest b.1.extent) ++ b.2.extent)) ++
        last.extent := by
  induction branches with
  | nil => simp
  | cons b branches ih => simp [Alternatives.extent, ih]

theorem alternatives_tracks : inner.alternatives.Tracks fun a x => x = a.extent := by
  have ended : (do return !(← eat .kwElif) : FreeParser Bool).Tracks fun b x =>
      x = if b then nothing else token := by
    apply tracks_eat_bind
    · exact tracks_pure (append_nothing token)
    · exact tracks_pure rfl
  have item : inner.branch.Tracks fun b x =>
      x = between (nest b.1.extent) ++ b.2.extent ∧ True :=
    (branch_tracks r).mono fun b x h => ⟨h, trivial⟩
  apply (tracks_listUntil ended item).bind
  rintro branches _ ⟨rfl, -⟩
  apply (elseClause_tracks r).bind
  rintro last _ rfl
  apply tracks_pure
  rw [extent_branches]
  simp

/-- A statement, whose level is opened around it. -/
theorem statement_tracks : inner.statement.Tracks fun s x => nest x = s.extent := by
  apply tracks_look_bind (p := Parser.kindAhead) fun _ => rfl
  intro kind
  split
  · apply tracks_skip_bind
    apply (blockBody_tracks r).bind
    rintro body _ rfl
    exact tracks_pure (by simp [Stmt.extent, Stmt.extentEach_eq_map, between])
  · apply tracks_skip_bind
    apply (branch_tracks r).bind
    rintro ⟨test, body⟩ _ rfl
    apply (alternatives_tracks r).bind
    rintro rest _ rfl
    exact tracks_pure (by simp [Stmt.extent])
  · apply tracks_skip_bind
    apply (branch_tracks r).bind
    rintro ⟨test, body⟩ _ rfl
    exact tracks_pure (by simp [Stmt.extent])
  · apply tracks_skip_bind
    apply r.stmt.bind
    rintro body _ rfl
    exact tracks_pure (by simp [Stmt.extent])
  · exact tracks_refuse
  · apply tracks_skip_bind
    apply tracks_skip_bind
    exact tracks_pure (by simp [Stmt.extent])
  · apply tracks_skip_bind
    apply tracks_skip_bind
    exact tracks_pure (by simp [Stmt.extent])
  · apply tracks_skip_bind
    apply expr_bind r
    intro value
    apply tracks_skip_bind
    exact tracks_pure (by simp [Stmt.extent, between])
  · apply (varDecl_tracks r).bind
    rintro decl _ rfl
    exact tracks_pure (by simp [Stmt.extent])
  · apply expr_bind r
    intro value
    apply tracks_skip_bind
    exact tracks_pure (by simp [Stmt.extent])

/-! ### Declarations -/

/-- Parameters that are read open no level. -/
theorem funcDecl_tracks : inner.funcDecl.Tracks fun d x =>
    x = d.extent ∧ ∀ p ∈ d.params, p.extent.Opens 0 := by
  apply tracks_expect_bind
  intro typeName
  apply declarator_tracks.bind
  rintro d _ rfl
  apply tracks_skip_bind
  apply (tracks_parenList param_tracks).bind
  rintro params _ ⟨rfl, noLevel⟩
  apply tracks_eat_bind
  · apply (blockBody_tracks r).bind
    rintro body _ rfl
    exact tracks_pure ⟨by simp [FuncDecl.extent, between], noLevel⟩
  · apply tracks_skip_bind
    exact tracks_pure ⟨by simp [FuncDecl.extent, between], noLevel⟩

theorem declaration_tracks : inner.declaration.Tracks fun d x =>
    x = d.extent ∧ d.extent.Opens d.levels := by
  apply tracks_look_bind (p := Parser.noteDeclaration) fun _ => rfl
  intro _
  apply tracks_look_bind (p := Parser.lookingAt _) fun _ => rfl
  intro plain
  apply tracks_look_bind (p := Parser.lookingAt _) fun _ => rfl
  intro pointer
  split
  · apply (funcDecl_tracks r).bind
    rintro d _ ⟨rfl, noLevel⟩
    exact tracks_pure ⟨append_nothing _, FuncDecl.extent_opens noLevel⟩
  apply tracks_look_bind (p := Parser.lookingAt _) fun _ => rfl
  intro plain
  apply tracks_look_bind (p := Parser.lookingAt _) fun _ => rfl
  intro pointer
  split
  · apply (varDecl_tracks r).bind
    rintro d _ rfl
    exact tracks_pure ⟨append_nothing _, d.extent_opens⟩
  · exact tracks_refuse

theorem program_tracks : inner.program.Tracks fun u x =>
    x = u.extent ∧ u.extent.Opens u.levels := by
  have ended : (do return (← TokenReader.kindAhead) == .endOfInput : FreeParser Bool).Tracks
      fun b x => x = if b then nothing else nothing := by
    apply tracks_look_bind (p := Parser.kindAhead) fun _ => rfl
    intro kind
    apply tracks_pure
    rw [ite_self]
  apply (tracks_listUntil ended (declaration_tracks r)).bind
  rintro decls _ ⟨rfl, levels⟩
  apply tracks_pure
  exact ⟨by simp [Program.extent], opens_concat levels⟩

theorem opening_tracks : NestedTracks inner.opening where
  operand least := (operatorExpr_tracks r least).deeper fun _ _ h => h ▸ rfl
  unary := (unaryExpr_tracks r).deeper fun _ _ h => h ▸ rfl
  stmt := (statement_tracks r).deeper fun _ _ h => h

end Phrases

theorem unfoldedParsers_tracks (n : Nat) : NestedTracks (unfoldedParsers n) := by
  induction n with
  | zero => exact ⟨fun _ => tracks_refuse, tracks_refuse, tracks_refuse⟩
  | succ n ih => exact opening_tracks ih

/-- What tracks on few tokens tracks on all. -/
theorem Tracks.of_agreeBelow {q : FreeParser α}
    (h : ∀ k, ∃ p : FreeParser α, p.Tracks good ∧ AgreeBelow k p q) : q.Tracks good := by
  intro depth whole place
  obtain ⟨p, tracks, agrees⟩ := h ((whole.drop place).length + 1)
  rw [← (agrees depth (whole.drop place) (Nat.lt_succ_self _)).1]
  exact tracks depth whole place

theorem unlimitedParsers_tracks : NestedTracks unlimitedParsers where
  operand least := .of_agreeBelow fun k =>
    ⟨_, (unfoldedParsers_tracks (2 * k)).operand least,
      (unlimitedParsers_related k (2 * k) (Nat.le_refl _)).operand least⟩
  unary := .of_agreeBelow fun k =>
    ⟨_, (unfoldedParsers_tracks (2 * k)).unary,
      (unlimitedParsers_related k (2 * k) (Nat.le_refl _)).unary⟩
  stmt := .of_agreeBelow fun k =>
    ⟨_, (unfoldedParsers_tracks (2 * k)).stmt,
      (unlimitedParsers_related k (2 * k) (Nat.le_refl _)).stmt⟩

end FreeParser

/-- A program that is read opens the levels of its tree, which reach as high as counted. -/
theorem opened_of_accepted {ts : List Token} {u : Program}
    (accepted : (unlimitedParsers.program 0 ts).value = some u) :
    (unlimitedParsers.program 0 ts).opened = u.openings.map (Opening.within ts) ∧
      ∀ n, (∀ o ∈ u.openings, o.level ≤ n) ↔ u.levels ≤ n := by
  obtain ⟨x, ⟨rfl, levels⟩, -, opened⟩ :=
    FreeParser.program_tracks FreeParser.unlimitedParsers_tracks 0 ts 0 u accepted
  refine ⟨opened, fun n => ?_⟩
  have bound := levels 0 0 n (Nat.zero_le n)
  rwa [Nat.zero_add] at bound

end ProcLang
