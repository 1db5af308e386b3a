import ProcLang.Proofs.Parse.Variables

/-!
# Statements are read exactly

An `elif` or `else` goes to the nearest conditional that can take it, so a statement
that could still take one is never followed by one. The branches of a conditional are
collected by a loop; its invariant says what the branches read so far make of any
further alternatives.
-/

set_option autoImplicit false

namespace ProcLang

open ProcLang.Parser TokenReader

namespace TokenKind

/-- Kinds that continue a conditional. -/
def continuesConditional : TokenKind → Bool
  | kwElif | kwElse => true
  | _ => false

theorem not_continuesConditional {kind : TokenKind} (notElif : kind ≠ .kwElif)
    (notElse : kind ≠ .kwElse) : kind.continuesConditional = false := by
  cases kind <;> first | rfl | contradiction

/-- Kinds that begin a statement. -/
def startsStmt (kind : TokenKind) : Bool :=
  match kind with
  | lbrace | kwIf | kwWhile | kwRepeat | kwBreak | kwContinue | kwReturn | typeName => true
  | _ => kind.startsExpr

end TokenKind

/-! ## Statements as forms -/

namespace Stmt

/-- A statement as a form: where it could still take an `elif` or an `else`, none may
stand behind it. -/
def form : Form Stmt where
  lexemes := Stmt.lexemes
  WellFormed := Stmt.WellFormed
  levels := Stmt.levels
  MayPrecede s kind := s.isOpen = true → kind.continuesConditional = false

/-- The statements of a block, with the closing brace. -/
def blockForm : Form (List Stmt) :=
  form.many [⟨.rbrace, "\x7d"⟩] fun _ => True

theorem lexemes_block (body : List Stmt) :
    (block body).lexemes = ⟨.lbrace, "\x7b"⟩ :: blockForm.lexemes body := by
  rw [lexemes_braces]
  rfl

theorem wellFormed_block {body : List Stmt} :
    (block body).WellFormed ↔ blockForm.WellFormed body :=
  wellFormed_braces

theorem levels_block_le {body : List Stmt} {n : Nat} :
    (block body).levels ≤ n + 1 ↔ blockForm.levels body ≤ n := by
  rw [levels_braces]
  show 1 + largest (body.map levels) ≤ n + 1 ↔ largest (body.map levels) ≤ n
  omega

theorem wellFormed_breakOut : breakOut.WellFormed := by
  simp [WellFormed]

theorem wellFormed_continueOn : continueOn.WellFormed := by
  simp [WellFormed]

theorem levels_jump_le {s : Stmt} {n : Nat} (h : s = breakOut ∨ s = continueOn) :
    s.levels ≤ n + 1 := by
  rcases h with rfl | rfl <;> rw [levels] <;> omega

theorem wellFormed_repeatLoop {body : Stmt} : (repeatLoop body).WellFormed ↔ body.WellFormed := by
  rw [WellFormed]

theorem levels_repeatLoop_le {body : Stmt} {n : Nat} :
    (repeatLoop body).levels ≤ n + 1 ↔ body.levels ≤ n := by
  rw [levels]
  omega

theorem wellFormed_declare {d : VarDecl} : (declare d).WellFormed ↔ d.WellFormed := by
  rw [WellFormed]

theorem levels_declare_le {d : VarDecl} {n : Nat} :
    (declare d).levels ≤ n + 1 ↔ d.levels ≤ n := by
  rw [levels]
  omega

/-- A statement begins like one. -/
theorem lexemes_starts {s : Stmt} (wf : s.WellFormed) :
    ∃ l ls, s.lexemes = l :: ls ∧ l.kind.startsStmt = true := by
  cases s with
  | forLoop => exact absurd wf (by simp [WellFormed])
  | evaluate value =>
      simp only [WellFormed] at wf
      obtain ⟨l, ls, hl, hstart, -⟩ := wf.lexemes_starts
      refine ⟨l, _, by rw [lexemes, hl]; rfl, ?_⟩
      cases hkind : l.kind <;> first | rfl | exact absurd hstart (by rw [hkind]; decide)
  | declare decl => exact ⟨_, _, rfl, rfl⟩
  | _ => exact ⟨_, _, rfl, rfl⟩

end Stmt

theorem semicolon_isMark : (⟨.semicolon, ";"⟩ : Lexeme).IsMark := by decide

/-- A closing brace ends a block. -/
theorem rbrace_ends : Ends (eat .rbrace) .rbrace [⟨.rbrace, "\x7d"⟩] fun _ => True where
  leads ts lex := by
    rw [leads_eat (by decide)]
    refine ⟨fun t r hts hkind => ?_, fun _ => rfl⟩
    exact ⟨reads_of_mark (l := ⟨.rbrace, "\x7d"⟩) (by decide) lex hts hkind, trivial⟩
  finished _ _ reads _ := ⟨reads.headKind_eq, yields_eat_true reads⟩
  goesOn _ h := yields_eat_false h

/-- A condition in its parentheses. -/
def Expr.conditionForm : Form Expr where
  lexemes e := Lexeme.inParens e.lexemes
  WellFormed := Expr.WellFormed
  levels := Expr.levels
  MayPrecede _ _ := True

/-- A condition with the statement that it guards. -/
def branchForm : Form (Expr × Stmt) where
  lexemes b := Lexeme.inParens b.1.lexemes ++ b.2.lexemes
  WellFormed b := b.1.WellFormed ∧ b.2.WellFormed
  levels b := max b.1.levels b.2.levels
  MayPrecede b := Stmt.form.MayPrecede b.2

theorem Stmt.lexemes_whileLoop (test : Expr) (body : Stmt) :
    (whileLoop test body).lexemes = ⟨.kwWhile, "while"⟩ :: branchForm.lexemes (test, body) := by
  rw [lexemes]
  rfl

theorem Stmt.wellFormed_whileLoop {test : Expr} {body : Stmt} :
    (whileLoop test body).WellFormed ↔ branchForm.WellFormed (test, body) := by
  rw [WellFormed]
  rfl

theorem Stmt.levels_whileLoop_le {test : Expr} {body : Stmt} {n : Nat} :
    (whileLoop test body).levels ≤ n + 1 ↔ branchForm.levels (test, body) ≤ n := by
  rw [levels]
  show _ ↔ max test.levels body.levels ≤ n
  omega

theorem Stmt.lexemes_conditional (test : Expr) (body : Stmt) (rest : Alternatives) :
    (conditional test body rest).lexemes =
      ⟨.kwIf, "if"⟩ :: (branchForm.lexemes (test, body) ++ rest.lexemes) := by
  rw [lexemes]
  simp [branchForm]

theorem Stmt.wellFormed_conditional {test : Expr} {body : Stmt} {rest : Alternatives} :
    (conditional test body rest).WellFormed ↔ branchForm.WellFormed (test, body) ∧
      (rest.isPresent = true → body.isOpen = false) ∧ rest.WellFormed := by
  rw [WellFormed]
  exact and_assoc.symm

/-- A branch alone is a conditional. -/
theorem Stmt.wellFormed_branch {b : Expr × Stmt} (wf : branchForm.WellFormed b) :
    (conditional b.1 b.2 .nothing).WellFormed := by
  refine wellFormed_conditional.2 ⟨wf, fun h => absurd h (by simp [Alternatives.isPresent]), ?_⟩
  simp [Alternatives.WellFormed]

theorem Stmt.levels_conditional_le {test : Expr} {body : Stmt} {rest : Alternatives} {n : Nat} :
    (conditional test body rest).levels ≤ n + 1 ↔
      branchForm.levels (test, body) ≤ n ∧ rest.levels ≤ n := by
  rw [levels]
  show _ ↔ max test.levels body.levels ≤ n ∧ rest.levels ≤ n
  omega

/-- The alternatives of a conditional: behind the last one stands no further one. -/
def Alternatives.form : Form Alternatives where
  lexemes := Alternatives.lexemes
  WellFormed := Alternatives.WellFormed
  levels := Alternatives.levels
  MayPrecede a kind := a.isOpen = true → kind.continuesConditional = false

namespace Nested

variable {inner : Nested Parser} {n : Nat}
  (operand : ∀ least, (inner.operand least).Parses (Expr.operandForm least) n)

section Condition

include operand

theorem condition_parses : inner.condition.Parses Expr.conditionForm n where
  sound ts lex := by
    have here : Expr.conditionForm.Begun ts ts := ⟨.ident "x", Expr.wellFormed_x, .start⟩
    refine leads_skip_mark (l := ⟨.lparen, "("⟩) (by decide) lex (fun m opened lexm => ?_) here
    refine (operand 0).leads_bind lexm (fun e m' read lexm' => ?_) (fun e r wf begins => ?_)
    · refine leads_skip_mark rparen_isMark lexm' (fun r closed _ => ?_) ?_
      · exact ⟨opened.cons (read.reads.append closed), read.wellFormed.1, read.levels_le, trivial⟩
      · exact Form.begun_of_prefix (a := e) read.wellFormed.1 opened read.reads.begins
          (by simp [Expr.conditionForm, Expr.operandForm, Lexeme.inParens])
    · exact Form.begun_of_prefix (a := e) wf.1 opened begins
        (by simp [Expr.conditionForm, Expr.operandForm, Lexeme.inParens])
  complete e ts rest read := by
    obtain ⟨reads, wf, hlevels, -⟩ := read
    obtain ⟨m, opened, reads⟩ := reads_cons.1 reads
    obtain ⟨m', body, closed⟩ := reads_append.1 reads
    have head : headKind m' = .rparen := closed.headKind_eq
    refine (yields_skip opened).bind (((operand 0).complete e m m' ⟨body, ?_, hlevels, ?_⟩).bind
      ((yields_skip closed).bind yields_pure))
    · exact ⟨wf, fun s _ => Nat.zero_le s⟩
    · rw [head]
      exact TokenKind.endsOperand_of_none rfl rfl 0

end Condition

variable (stmt : inner.stmt.Parses Stmt.form n)

section Block

include stmt

/-- The statements of a block are read exactly. -/
theorem blockBody_parses : inner.blockBody.Parses Stmt.blockForm n := by
  apply listUntil_parses rbrace_ends stmt (fun _ _ => rfl)
  intro s wf
  obtain ⟨l, ls, hl, hstart⟩ := Stmt.lexemes_starts wf
  refine ⟨l, ls, hl, fun h => ?_, fun _ _ => ?_⟩
  · rw [h] at hstart
    exact absurd hstart (by decide)
  · cases hkind : l.kind <;> first | rfl | exact absurd hstart (by rw [hkind]; decide)

end Block

include operand stmt

theorem branch_parses : inner.branch.Parses branchForm n where
  sound ts lex := by
    refine (condition_parses operand).leads_bind lex (fun test m read lexm => ?_)
      (fun test r wf begins => ?_)
    · refine stmt.leads_bind lexm (fun body r bread _ => ?_) (fun body r bwf begins => ?_)
      · exact ⟨read.reads.append bread.reads, ⟨read.wellFormed, bread.wellFormed⟩,
          Nat.max_le.2 ⟨read.levels_le, bread.levels_le⟩, bread.mayPrecede⟩
      · exact Form.begun_of_prefix (a := (test, body)) ⟨read.wellFormed, bwf⟩ read.reads begins
          List.prefix_rfl
    · exact ⟨(test, .breakOut), ⟨wf, Stmt.wellFormed_breakOut⟩,
        begins.mono (List.prefix_append _ _)⟩
  complete b ts rest read := by
    obtain ⟨test, body⟩ := b
    obtain ⟨reads, ⟨twf, bwf⟩, hlevels, behind⟩ := read
    obtain ⟨tlevels, blevels⟩ := Nat.max_le.1 hlevels
    obtain ⟨m, tread, reads⟩ := reads_append.1 reads
    refine ((condition_parses operand).complete test ts m ⟨tread, twf, tlevels, trivial⟩).bind ?_
    exact (stmt.complete body m rest ⟨reads, bwf, blevels, behind⟩).bind yields_pure

end Nested

/-! ## Alternatives -/

namespace Alternatives

/-- Branches, last one first, with further alternatives behind them. -/
def behind (items : List (Expr × Stmt)) (last : Alternatives) : Alternatives :=
  items.foldl (fun rest b => .elseIf b.1 b.2 rest) last

/-- The lexemes of branches, last one first, each with its `elif`. -/
def branchLexemes (items : List (Expr × Stmt)) : List Lexeme :=
  items.reverse.flatMap fun b => ⟨.kwElif, "elif"⟩ :: branchForm.lexemes b

theorem lexemes_behind (items : List (Expr × Stmt)) (last : Alternatives) :
    (behind items last).lexemes = branchLexemes items ++ last.lexemes := by
  induction items generalizing last with
  | nil => rfl
  | cons b items ih =>
      show (behind items (.elseIf b.1 b.2 last)).lexemes = _
      rw [ih, branchLexemes, branchLexemes, List.reverse_cons, List.flatMap_append]
      simp [lexemes, branchForm]

theorem isOpen_behind (items : List (Expr × Stmt)) (last : Alternatives) :
    (behind items last).isOpen = last.isOpen := by
  induction items generalizing last with
  | nil => rfl
  | cons b items ih =>
      show (behind items (.elseIf b.1 b.2 last)).isOpen = _
      rw [ih, isOpen]

theorem wellFormed_nothing : nothing.WellFormed := by
  simp [WellFormed]

theorem wellFormed_otherwise {body : Stmt} : (otherwise body).WellFormed ↔ body.WellFormed := by
  rw [WellFormed]

theorem wellFormed_elseIf {test : Expr} {body : Stmt} {rest : Alternatives} :
    (elseIf test body rest).WellFormed ↔ branchForm.WellFormed (test, body) ∧
      (rest.isPresent = true → body.isOpen = false) ∧ rest.WellFormed := by
  rw [WellFormed]
  exact and_assoc.symm

theorem levels_elseIf_le {test : Expr} {body : Stmt} {rest : Alternatives} {n : Nat} :
    (elseIf test body rest).levels ≤ n ↔ branchForm.levels (test, body) ≤ n ∧ rest.levels ≤ n := by
  rw [levels]
  show _ ↔ max test.levels body.levels ≤ n ∧ rest.levels ≤ n
  omega

/-- An alternative begins with its word. -/
theorem lexemes_of_present {a : Alternatives} (present : a.isPresent = true) :
    ∃ l ls, a.lexemes = l :: ls ∧ l.kind.continuesConditional = true := by
  cases a with
  | nothing => exact absurd present (by simp [isPresent])
  | otherwise => exact ⟨_, _, rfl, rfl⟩
  | elseIf => exact ⟨_, _, rfl, rfl⟩

/-- A body that could take an alternative is followed by none. -/
theorem open_followed {n : Nat} {ts rest : List Token} {a : Alternatives} {body : Stmt}
    (closed : a.isPresent = true → body.isOpen = false) (read : form.Read n a ts rest)
    (hopen : body.isOpen = true) : (headKind ts).continuesConditional = false := by
  cases a with
  | nothing =>
      obtain rfl : ts = rest := reads_nil.1 read.reads
      exact read.mayPrecede (by rw [isOpen])
  | otherwise => exact absurd hopen (by rw [closed rfl]; simp)
  | elseIf => exact absurd hopen (by rw [closed rfl]; simp)

/-- A body that is followed by an alternative is closed. -/
theorem closed_of_present {n : Nat} {test : Expr} {body : Stmt} {a : Alternatives}
    {ts m r : List Token}
    (read : branchForm.Read n (test, body) ts m) (begins : Begins a.lexemes m r)
    (moved : m ≠ r) (present : a.isPresent = true) : body.isOpen = false := by
  obtain ⟨l, ls, hl, continues⟩ := lexemes_of_present present
  cases hopen : body.isOpen with
  | false => rfl
  | true =>
      have ends : (headKind m).continuesConditional = false := read.mayPrecede hopen
      rcases begins.headKind_eq with still | ⟨l', ls', hl', head⟩
      · exact absurd still moved
      · obtain ⟨rfl, -⟩ := List.cons.inj (hl.symm.trans hl')
        rw [head, continues] at ends
        exact absurd ends (by simp)

/-- The branches read so far, last one first, lead from `ts` to `m`. What they make of
further alternatives depends on the current token: where their last body is open, no
alternative begins. -/
structure BranchesRead (n : Nat) (ts : List Token) (items : List (Expr × Stmt))
    (m : List Token) : Prop where
  reads : Reads (branchLexemes items) ts m
  wellFormed : ∀ last, last.WellFormed →
    (last.isPresent = true → (headKind m).continuesConditional = true) →
      (behind items last).WellFormed
  levels_le : ∀ last, last.levels ≤ n → (behind items last).levels ≤ n
  lexical : Lexical m

variable {n : Nat} {ts m r : List Token} {items : List (Expr × Stmt)} {last : Alternatives}

theorem BranchesRead.begun (h : BranchesRead n ts items m) (wf : last.WellFormed)
    (ahead : last.isPresent = true → (headKind m).continuesConditional = true)
    (begins : Begins last.lexemes m r) : form.Begun ts r := by
  refine ⟨behind items last, h.wellFormed last wf ahead, ?_⟩
  show Begins (behind items last).lexemes ts r
  rw [lexemes_behind]
  exact h.reads.append_begins begins

theorem BranchesRead.read (h : BranchesRead n ts items m) (hlast : form.Read n last m r)
    (ahead : last.isPresent = true → (headKind m).continuesConditional = true) :
    form.Read n (behind items last) ts r where
  reads := by
    show Reads (behind items last).lexemes ts r
    rw [lexemes_behind]
    exact h.reads.append hlast.reads
  wellFormed := h.wellFormed last hlast.wellFormed ahead
  levels_le := h.levels_le last hlast.levels_le
  mayPrecede hopen := by
    rw [isOpen_behind] at hopen
    exact hlast.mayPrecede hopen

/-- One more branch: its body is followed by an alternative only if it is not open. -/
theorem BranchesRead.snoc (h : BranchesRead n ts items m) {m' : List Token} {b : Expr × Stmt}
    (mark : Reads [⟨.kwElif, "elif"⟩] m m') (read : branchForm.Read n b m' r)
    (lex : Lexical r) : BranchesRead n ts (b :: items) r where
  reads := by
    rw [branchLexemes, List.reverse_cons, List.flatMap_append, List.flatMap_singleton]
    exact h.reads.append (mark.cons read.reads)
  wellFormed last wf ahead := by
    refine h.wellFormed (.elseIf b.1 b.2 last) ?_ ?_
    · refine wellFormed_elseIf.2 ⟨read.wellFormed, fun present => ?_, wf⟩
      cases hopen : b.2.isOpen with
      | false => rfl
      | true => exact absurd (read.mayPrecede hopen) (by rw [ahead present]; simp)
    · intro _
      rw [mark.headKind_eq]
      rfl
  levels_le last hlast := h.levels_le _ (levels_elseIf_le.2 ⟨read.levels_le, hlast⟩)
  lexical := lex

end Alternatives

namespace Nested

open Alternatives

variable {inner : Nested Parser} {n : Nat}
  (operand : ∀ least, (inner.operand least).Parses (Expr.operandForm least) n)
  (stmt : inner.stmt.Parses Stmt.form n)

include operand stmt

theorem alternatives_sound (ts : List Token) (lex : Lexical ts) :
    inner.alternatives.Leads ts (fun a r => Alternatives.form.Read n a ts r)
      (Alternatives.form.Begun ts) := by
  unfold alternatives
  rw [leads_bind]
  refine Leads.loop (BranchesRead n ts) ?_
    ⟨by simp [branchLexemes], fun _ wf _ => wf, fun _ h => h, lex⟩
  intro items m inv
  rw [leads_bind]
  refine leads_eat_mark (l := ⟨.kwElif, "elif"⟩) (by decide) inv.lexical (fun r mark lexr => ?_)
    (fun notElif => ?_)
  -- another branch: what is collected so far is followed by `elif`, so it is closed
  · have ahead (last : Alternatives) : last.isPresent = true →
        (headKind m).continuesConditional = true := by
      intro _
      rw [mark.headKind_eq]
      rfl
    rw [leads_pure, Bool.not_true, if_neg Bool.false_ne_true]
    refine (branch_parses operand stmt).leads_bind lexr (fun b r' read lexr' => ?_)
      (fun b r' wf begins => ?_)
    · refine ⟨?_, inv.snoc mark read lexr'⟩
      show r'.length < m.length
      have := mark.length_lt (by simp)
      have := read.reads.length_eq
      omega
    · have whole : (elseIf b.1 b.2 .nothing).WellFormed :=
        wellFormed_elseIf.2 ⟨wf, fun h => absurd h (by simp [isPresent]), wellFormed_nothing⟩
      refine inv.begun whole (ahead _) ((mark.append_begins begins).mono ?_)
      simp [Alternatives.lexemes, branchForm]
  · show (inner.elseClause >>= fun last =>
      pure (items.reverse.foldr (fun b rest => .elseIf b.1 b.2 rest) last)).Leads m _ _
    simp only [List.foldr_reverse]
    rw [leads_bind]
    refine leads_eat_mark (l := ⟨.kwElse, "else"⟩) (by decide) inv.lexical (fun r mark lexr => ?_)
      (fun notElse => ?_)
    -- the branches end with `else`
    · have ahead (last : Alternatives) : last.isPresent = true →
          (headKind m).continuesConditional = true := by
        intro _
        rw [mark.headKind_eq]
        rfl
      refine stmt.leads_bind lexr (fun body r' read _ => ?_) (fun body r' wf begins => ?_)
      · have whole : Alternatives.form.Read n (.otherwise body) m r' :=
          ⟨mark.cons read.reads, wellFormed_otherwise.2 read.wellFormed, read.levels_le,
            read.mayPrecede⟩
        exact inv.read whole (ahead _)
      · exact inv.begun (wellFormed_otherwise.2 wf) (ahead _) (mark.append_begins begins)
    -- neither word is ahead, so nothing is left open in front of one
    · have none : Alternatives.form.Read n .nothing m m :=
        ⟨reads_nil.2 rfl, wellFormed_nothing, Nat.zero_le n, fun _ =>
          TokenKind.not_continuesConditional notElif notElse⟩
      exact inv.read none fun h => absurd h (by simp [isPresent])

omit operand stmt in
theorem yields_noBranch {ts : List Token} (h : headKind ts ≠ .kwElif) :
    ((do return !(← eat .kwElif)) : Parser Bool).Yields ts true ts :=
  (yields_eat_false h).bind yields_pure

omit operand stmt in
theorem yields_branch {ts rest : List Token} (mark : Reads [⟨.kwElif, "elif"⟩] ts rest) :
    ((do return !(← eat .kwElif)) : Parser Bool).Yields ts false rest :=
  (yields_eat_true mark).bind yields_pure

/-- The loop over the branches, from any state, finds the alternatives still to come. -/
theorem alternatives_complete : (a : Alternatives) → (items : List (Expr × Stmt)) →
    (ts rest : List Token) → Alternatives.form.Read n a ts rest →
      (TokenReader.loop (fun items => do
          if ← (do return !(← eat .kwElif)) then return .done items.reverse
          let x ← inner.branch
          return .again (x :: items)) items >>= fun branches =>
        inner.elseClause >>= fun last =>
          pure (branches.foldr (fun b rest => .elseIf b.1 b.2 rest) last) :
            Parser Alternatives).Yields ts (behind items a) rest
  | .nothing, items, ts, rest, whole => by
      obtain rfl : ts = rest := reads_nil.1 whole.reads
      have ends : (headKind ts).continuesConditional = false := whole.mayPrecede (by rw [isOpen])
      have notElif : headKind ts ≠ .kwElif := fun h => absurd ends (by rw [h]; decide)
      have notElse : headKind ts ≠ .kwElse := fun h => absurd ends (by rw [h]; decide)
      have clause : inner.elseClause.Yields ts .nothing ts :=
        (yields_eat_false notElse).bind yields_pure
      refine Yields.bind (Yields.done ((yields_noBranch notElif).bind yields_pure)) ?_
      apply clause.bind
      rw [List.foldr_reverse]
      exact yields_pure
  | .otherwise body, items, ts, rest, whole => by
      obtain ⟨m, mark, reads⟩ := reads_cons.1 whole.reads
      have head : headKind ts = .kwElse := mark.headKind_eq
      have notElif : headKind ts ≠ .kwElif := by
        rw [head]
        decide
      have body_read : Stmt.form.Read n body m rest :=
        ⟨reads, wellFormed_otherwise.1 whole.wellFormed, whole.levels_le, whole.mayPrecede⟩
      have clause : inner.elseClause.Yields ts (.otherwise body) rest :=
        (yields_eat_true mark).bind ((stmt.complete body m rest body_read).bind yields_pure)
      refine Yields.bind (Yields.done ((yields_noBranch notElif).bind yields_pure)) ?_
      apply clause.bind
      rw [List.foldr_reverse]
      exact yields_pure
  | .elseIf test body a, items, ts, rest, whole => by
      obtain ⟨bwf, closed, awf⟩ := wellFormed_elseIf.1 whole.wellFormed
      obtain ⟨blevels, alevels⟩ := levels_elseIf_le.1 whole.levels_le
      have reads : Reads (⟨.kwElif, "elif"⟩ :: (branchForm.lexemes (test, body) ++ a.lexemes))
          ts rest := by
        have := whole.reads
        simpa [Alternatives.form, Alternatives.lexemes, branchForm] using this
      obtain ⟨m, mark, reads⟩ := reads_cons.1 reads
      obtain ⟨m', bread, reads⟩ := reads_append.1 reads
      have aread : Alternatives.form.Read n a m' rest := ⟨reads, awf, alevels, whole.mayPrecede⟩
      have shorter : m'.length < ts.length := by
        have := mark.length_lt (by simp)
        have := bread.length_eq
        omega
      obtain ⟨branches, m'', collected, others⟩ :=
        (alternatives_complete a ((test, body) :: items) m' rest aread).of_bind
      refine Yields.bind (Yields.again (t := (test, body) :: items) ?_ shorter collected) others
      apply (yields_branch mark).bind
      exact ((branch_parses operand stmt).complete (test, body) m m'
        ⟨bread, bwf, blevels, open_followed closed aread⟩).bind yields_pure

theorem alternatives_parses : inner.alternatives.Parses Alternatives.form n where
  sound := alternatives_sound operand stmt
  complete a ts rest read := alternatives_complete operand stmt a [] ts rest read

/-- A conditional behind its word. -/
theorem conditional_sound {ts m : List Token} (mark : Reads [⟨.kwIf, "if"⟩] ts m)
    (lexm : Lexical m) :
    (do
      let (test, body) ← inner.branch
      return Stmt.conditional test body (← inner.alternatives) : Parser Stmt).Leads m
        (fun s r => Stmt.form.Read (n + 1) s ts r) (Stmt.form.Begun ts) := by
  refine (branch_parses operand stmt).leads_bind lexm (fun b m' read lexm' => ?_)
    (fun b r wf begins => ?_)
  · obtain ⟨test, body⟩ := b
    have front := mark.append read.reads
    refine (alternatives_parses operand stmt).leads_bind lexm' (fun a r aread _ => ?_)
      (fun a r awf begins => ?_)
    · refine ⟨?_, Stmt.wellFormed_conditional.2 ⟨read.wellFormed, fun present => ?_, aread.wellFormed⟩,
        Stmt.levels_conditional_le.2 ⟨read.levels_le, aread.levels_le⟩, fun hopen => ?_⟩
      · show Reads (Stmt.lexemes (.conditional test body a)) ts r
        rw [Stmt.lexemes_conditional]
        exact front.append aread.reads
      -- alternatives that are present have been read, and they close the body
      · have moved : m' ≠ r := by
          obtain ⟨l, ls, hl, -⟩ := lexemes_of_present present
          have shorter : r.length < m'.length :=
            aread.reads.length_lt (by simp [Alternatives.form, hl])
          rintro rfl
          omega
        exact closed_of_present read aread.reads.begins moved present
      · exact aread.mayPrecede (by simpa [Stmt.isOpen] using hopen)
    · -- where no alternative has been begun, the conditional ends here
      by_cases moved : m' = r
      · subst moved
        refine Form.begun_of_reads (a := .conditional test body .nothing)
          (Stmt.wellFormed_branch read.wellFormed) front ?_
        simp [Stmt.form, Stmt.lexemes_conditional]
      · refine Form.begun_of_prefix (a := .conditional test body a)
          (Stmt.wellFormed_conditional.2 ⟨read.wellFormed, fun present => ?_, awf⟩) front begins ?_
        · exact closed_of_present read begins moved present
        · simp [Stmt.form, Alternatives.form, Stmt.lexemes_conditional]
  · refine Form.begun_of_prefix (a := .conditional b.1 b.2 .nothing) (Stmt.wellFormed_branch wf)
      mark begins ?_
    simp [Stmt.form, Stmt.lexemes_conditional]

omit stmt in
/-- A statement that ends in an expression and a semicolon. -/
theorem value_sound (wrap : Expr → Stmt) {ts m : List Token} {front : List Lexeme}
    (read : Reads front ts m) (lexm : Lexical m)
    (lexemes : ∀ e, (wrap e).lexemes = front ++ (e.lexemes ++ [⟨.semicolon, ";"⟩]))
    (wellFormed : ∀ e, (wrap e).WellFormed ↔ e.WellFormed)
    (levels : ∀ e, (wrap e).levels = 1 + e.levels) (closed : ∀ e, (wrap e).isOpen = false) :
    (do
      let value ← inner.expr
      skip .semicolon
      return wrap value : Parser Stmt).Leads m
        (fun s r => Stmt.form.Read (n + 1) s ts r) (Stmt.form.Begun ts) := by
  refine (operand 0).leads_bind lexm (fun e m' eread lexm' => ?_) (fun e r wf begins => ?_)
  · refine leads_skip_mark semicolon_isMark lexm' (fun r mark _ => ?_) ?_
    · refine ⟨?_, (wellFormed e).2 eread.wellFormed.1, ?_, fun hopen => ?_⟩
      · show Reads (wrap e).lexemes ts r
        rw [lexemes]
        exact read.append (eread.reads.append mark)
      · have : e.levels ≤ n := eread.levels_le
        show (wrap e).levels ≤ n + 1
        rw [levels]
        omega
      · rw [closed] at hopen
        exact absurd hopen (by simp)
    · refine Form.begun_of_prefix (a := wrap e) ((wellFormed e).2 eread.wellFormed.1) read
        eread.reads.begins ?_
      simp [Stmt.form, Expr.operandForm, lexemes]
  · apply Form.begun_of_prefix (a := wrap e) ((wellFormed e).2 wf.1) read begins
    simp [Stmt.form, Expr.operandForm, lexemes]

theorem statement_sound (ts : List Token) (lex : Lexical ts) :
    inner.statement.Leads ts (fun s r => Stmt.form.Read (n + 1) s ts r) (Stmt.form.Begun ts) := by
  have here : Stmt.form.Begun ts ts := ⟨.breakOut, Stmt.wellFormed_breakOut, .start⟩
  -- a statement that is not open may stand before anything
  have closed {s : Stmt} (h : s.isOpen = false) (kind : TokenKind) : Stmt.form.MayPrecede s kind :=
    fun hopen => absurd hopen (by rw [h]; simp)
  unfold statement
  rw [leads_bind, leads_kindAhead]
  split
  -- a block
  · refine leads_skip_mark (l := ⟨.lbrace, "\x7b"⟩) (by decide) lex (fun m mark lexm => ?_) here
    refine (blockBody_parses stmt).leads_bind lexm (fun body r read _ => ?_)
      (fun body r wf begins => ?_)
    · refine ⟨?_, Stmt.wellFormed_block.2 read.wellFormed, Stmt.levels_block_le.2 read.levels_le,
        closed (by simp [Stmt.isOpen]) _⟩
      show Reads (Stmt.lexemes (.block body)) ts r
      rw [Stmt.lexemes_block]
      exact mark.append read.reads
    · apply Form.begun_of_prefix (a := .block body) (Stmt.wellFormed_block.2 wf) mark begins
      simp [Stmt.form, Stmt.lexemes_block]
  -- a conditional
  · refine leads_skip_mark (l := ⟨.kwIf, "if"⟩) (by decide) lex (fun m mark lexm => ?_) here
    exact conditional_sound operand stmt mark lexm
  -- a loop with a condition
  · refine leads_skip_mark (l := ⟨.kwWhile, "while"⟩) (by decide) lex (fun m mark lexm => ?_) here
    refine (branch_parses operand stmt).leads_bind lexm (fun b r read _ => ?_)
      (fun b r wf begins => ?_)
    · refine ⟨?_, Stmt.wellFormed_whileLoop.2 read.wellFormed,
        Stmt.levels_whileLoop_le.2 read.levels_le, fun hopen => ?_⟩
      · show Reads (Stmt.lexemes (.whileLoop b.1 b.2)) ts r
        rw [Stmt.lexemes_whileLoop]
        exact mark.append read.reads
      · exact read.mayPrecede (by simpa [Stmt.isOpen] using hopen)
    · refine Form.begun_of_prefix (a := .whileLoop b.1 b.2) (Stmt.wellFormed_whileLoop.2 wf) mark
        begins ?_
      simp [Stmt.form, Stmt.lexemes_whileLoop]
  -- a loop without one
  · refine leads_skip_mark (l := ⟨.kwRepeat, "repeat"⟩) (by decide) lex (fun m mark lexm => ?_) here
    refine stmt.leads_bind lexm (fun body r read _ => ?_) (fun body r wf begins => ?_)
    · refine ⟨?_, Stmt.wellFormed_repeatLoop.2 read.wellFormed,
        Stmt.levels_repeatLoop_le.2 read.levels_le, fun hopen => ?_⟩
      · show Reads (Stmt.lexemes (.repeatLoop body)) ts r
        rw [Stmt.lexemes]
        exact mark.append read.reads
      · exact read.mayPrecede (by simpa [Stmt.isOpen] using hopen)
    · refine Form.begun_of_prefix (a := .repeatLoop body) (Stmt.wellFormed_repeatLoop.2 wf) mark
        begins ?_
      simp [Stmt.form, Stmt.lexemes]
  -- `for` is refused in place
  · exact here
  -- the two jumps
  · refine leads_skip_mark (l := ⟨.kwBreak, "break"⟩) (by decide) lex (fun m mark lexm => ?_) here
    refine leads_skip_mark semicolon_isMark lexm (fun r mark' _ => ?_) ?_
    · exact ⟨mark.cons mark', Stmt.wellFormed_breakOut, Stmt.levels_jump_le (.inl rfl),
        closed (by simp [Stmt.isOpen]) _⟩
    · exact Form.begun_of_reads (a := .breakOut) Stmt.wellFormed_breakOut mark ⟨_, rfl⟩
  · refine leads_skip_mark (l := ⟨.kwContinue, "continue"⟩) (by decide) lex (fun m mark lexm => ?_)
      here
    refine leads_skip_mark semicolon_isMark lexm (fun r mark' _ => ?_) ?_
    · exact ⟨mark.cons mark', Stmt.wellFormed_continueOn, Stmt.levels_jump_le (.inr rfl),
        closed (by simp [Stmt.isOpen]) _⟩
    · exact Form.begun_of_reads (a := .continueOn) Stmt.wellFormed_continueOn mark ⟨_, rfl⟩
  -- a value given back
  · refine leads_skip_mark (l := ⟨.kwReturn, "return"⟩) (by decide) lex (fun m mark lexm => ?_) here
    refine value_sound operand .returnValue mark lexm (fun e => ?_) (fun e => ?_)
      (fun e => ?_) (fun e => ?_)
    · simp [Stmt.lexemes]
    · simp [Stmt.WellFormed]
    · simp [Stmt.levels]
    · simp [Stmt.isOpen]
  -- variables
  · refine (varDecl_parses operand).leads_bind lex (fun d r read _ => ?_) (fun d r wf begins => ?_)
    · exact ⟨read.reads, Stmt.wellFormed_declare.2 read.wellFormed,
        Stmt.levels_declare_le.2 read.levels_le, closed (by simp [Stmt.isOpen]) _⟩
    · exact ⟨.declare d, Stmt.wellFormed_declare.2 wf, begins⟩
  -- any other token begins an expression
  · refine value_sound operand .evaluate (reads_nil.2 rfl) lex (fun e => ?_) (fun e => ?_)
      (fun e => ?_) (fun e => ?_)
    · simp [Stmt.lexemes]
    · simp [Stmt.WellFormed]
    · simp [Stmt.levels]
    · simp [Stmt.isOpen]

omit stmt in
theorem value_complete (wrap : Expr → Stmt) {e : Expr} {m rest : List Token} (wf : e.WellFormed)
    (hlevels : 1 + e.levels ≤ n + 1) (reads : Reads (e.lexemes ++ [⟨.semicolon, ";"⟩]) m rest) :
    (do
      let value ← inner.expr
      skip .semicolon
      return wrap value : Parser Stmt).Yields m (wrap e) rest := by
  obtain ⟨m', eread, mark⟩ := reads_append.1 reads
  have head : headKind m' = .semicolon := mark.headKind_eq
  have read : (Expr.operandForm 0).Read n e m m' := by
    refine ⟨eread, ⟨wf, fun s _ => Nat.zero_le s⟩, Nat.le_of_succ_le_succ ?_, ?_⟩
    · show e.levels + 1 ≤ n + 1
      omega
    · rw [head]
      exact TokenKind.endsOperand_of_none rfl rfl 0
  exact ((operand 0).complete e m m' read).bind ((yields_skip mark).bind yields_pure)

theorem statement_complete (s : Stmt) (ts rest : List Token)
    (read : Stmt.form.Read (n + 1) s ts rest) : inner.statement.Yields ts s rest := by
  obtain ⟨reads, wf, hlevels, behind⟩ := read
  replace reads : Reads s.lexemes ts rest := reads
  replace wf : s.WellFormed := wf
  replace hlevels : s.levels ≤ n + 1 := hlevels
  apply yields_kindAhead.bind
  cases s with
  | block body =>
      rw [Stmt.lexemes_block] at reads
      obtain ⟨m, mark, body_reads⟩ := reads_cons.1 reads
      rw [reads.headKind_eq]
      exact (yields_skip mark).bind (((blockBody_parses stmt).complete body m rest
        ⟨body_reads, Stmt.wellFormed_block.1 wf, Stmt.levels_block_le.1 hlevels, trivial⟩).bind
          yields_pure)
  | conditional test body a =>
      obtain ⟨bwf, closed, awf⟩ := Stmt.wellFormed_conditional.1 wf
      obtain ⟨blevels, alevels⟩ := Stmt.levels_conditional_le.1 hlevels
      rw [Stmt.lexemes_conditional] at reads
      obtain ⟨m, mark, parts⟩ := reads_cons.1 reads
      obtain ⟨m', branch_reads, others⟩ := reads_append.1 parts
      rw [reads.headKind_eq]
      have aread : Alternatives.form.Read n a m' rest :=
        ⟨others, awf, alevels, fun hopen => behind (by rw [Stmt.isOpen]; exact hopen)⟩
      have bread : branchForm.Read n (test, body) m m' :=
        ⟨branch_reads, bwf, blevels, open_followed closed aread⟩
      exact (yields_skip mark).bind (((branch_parses operand stmt).complete _ m m' bread).bind
        (((alternatives_parses operand stmt).complete a m' rest aread).bind yields_pure))
  | whileLoop test body =>
      rw [Stmt.lexemes_whileLoop] at reads
      obtain ⟨m, mark, branch_reads⟩ := reads_cons.1 reads
      rw [reads.headKind_eq]
      have bread : branchForm.Read n (test, body) m rest :=
        ⟨branch_reads, Stmt.wellFormed_whileLoop.1 wf, Stmt.levels_whileLoop_le.1 hlevels,
          fun hopen => behind (by rw [Stmt.isOpen]; exact hopen)⟩
      exact (yields_skip mark).bind (((branch_parses operand stmt).complete _ m rest bread).bind
        yields_pure)
  | repeatLoop body =>
      rw [Stmt.lexemes] at reads
      obtain ⟨m, mark, body_reads⟩ := reads_cons.1 reads
      rw [reads.headKind_eq]
      have bread : Stmt.form.Read n body m rest :=
        ⟨body_reads, Stmt.wellFormed_repeatLoop.1 wf, Stmt.levels_repeatLoop_le.1 hlevels,
          fun hopen => behind (by rw [Stmt.isOpen]; exact hopen)⟩
      exact (yields_skip mark).bind ((stmt.complete body m rest bread).bind yields_pure)
  | forLoop => exact absurd wf (by simp [Stmt.WellFormed])
  | breakOut =>
      rw [Stmt.lexemes] at reads
      obtain ⟨m, mark, semicolon⟩ := reads_cons.1 reads
      rw [reads.headKind_eq]
      exact (yields_skip mark).bind ((yields_skip semicolon).bind yields_pure)
  | continueOn =>
      rw [Stmt.lexemes] at reads
      obtain ⟨m, mark, semicolon⟩ := reads_cons.1 reads
      rw [reads.headKind_eq]
      exact (yields_skip mark).bind ((yields_skip semicolon).bind yields_pure)
  | returnValue value =>
      rw [Stmt.lexemes, List.cons_append] at reads
      obtain ⟨m, mark, value_reads⟩ := reads_cons.1 reads
      rw [Stmt.levels] at hlevels
      rw [Stmt.WellFormed] at wf
      rw [reads.headKind_eq]
      exact (yields_skip mark).bind (value_complete operand .returnValue wf hlevels value_reads)
  | declare d =>
      rw [Stmt.lexemes] at reads
      have head : headKind ts = .typeName := reads.headKind_eq
      rw [head]
      exact ((varDecl_parses operand).complete d ts rest
        ⟨reads, Stmt.wellFormed_declare.1 wf, Stmt.levels_declare_le.1 hlevels, trivial⟩).bind
          yields_pure
  | evaluate value =>
      rw [Stmt.lexemes] at reads
      rw [Stmt.levels] at hlevels
      rw [Stmt.WellFormed] at wf
      obtain ⟨l, ls, hl, hstart, -⟩ := wf.lexemes_starts
      have head : headKind ts = l.kind := by
        rw [hl] at reads
        exact reads.headKind_eq
      have run := value_complete operand .evaluate wf hlevels reads
      -- no word that begins another statement begins an expression
      rw [head]
      split
      all_goals first
        | exact run
        | rename_i hkind
          rw [hkind] at hstart
          exact absurd hstart (by decide)

/-- A statement is read exactly, one level above the phrases inside it. -/
theorem statement_parses : inner.statement.Parses Stmt.form (n + 1) where
  sound := statement_sound operand stmt
  complete := statement_complete operand stmt

end Nested

/-! ## Every nesting level -/

/-- The nested parsers read exactly their forms, as far as `n` levels reach. -/
structure Nested.Parses (inner : Nested Parser) (n : Nat) : Prop where
  operand : ∀ least, (inner.operand least).Parses (Expr.operandForm least) n
  unary : inner.unary.Parses Expr.unaryForm n
  stmt : inner.stmt.Parses Stmt.form n

/-- Where no level is left, the refusal of everything reads exactly a form whose trees
all open one. -/
theorem refuse_parses {α : Type} {A : Form α} (begun : ∃ a, A.WellFormed a)
    (opens : ∀ a, 0 < A.levels a) : (TokenReader.refuse : Parser α).Parses A 0 where
  sound ts _ := by
    obtain ⟨a, wf⟩ := begun
    exact ⟨a, wf, .start⟩
  complete a ts rest read := by
    have := opens a
    have := read.levels_le
    omega

/-- The parsers for phrases that may open `n` nesting levels read exactly the trees that
open no more. -/
theorem nestedParsers_parses (n : Nat) : (nestedParsers n).Parses n := by
  induction n with
  | zero =>
      have opens (e : Expr) : 0 < e.levels := by
        rw [Expr.levels]
        omega
      refine ⟨fun least => refuse_parses ?_ opens, refuse_parses ?_ opens,
        refuse_parses ⟨.breakOut, Stmt.wellFormed_breakOut⟩ Stmt.levels_pos⟩
      · exact ⟨_, Expr.wellFormed_x, Expr.bindsAtLeast_of_not_binary rfl least⟩
      · exact ⟨_, Expr.wellFormed_x, rfl⟩
  | succ n ih =>
      exact ⟨Nested.operatorExpr_parses ih.operand ih.unary,
        Nested.unaryExpr_parses ih.operand ih.unary, Nested.statement_parses ih.operand ih.stmt⟩

end ProcLang
