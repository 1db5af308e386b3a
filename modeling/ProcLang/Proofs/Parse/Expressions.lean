import ProcLang.Proofs.Parse.Lists

/-!
# Expressions are read exactly

Binary operators are read by strength: an operand that binds at least as tightly as
`least` ends before a looser operator, so the left operand collected by the loop always
binds more tightly than the operator that follows it. This is the invariant of the loop
in one direction; in the other, an expression is taken apart along its left operands,
and a postfix chain along its bases.
-/

set_option autoImplicit false

namespace ProcLang

namespace TokenKind

/-- Kinds that continue a postfix chain. -/
def continuesChain : TokenKind → Bool
  | plusPlus | minusMinus | lparen | lbracket => true
  | _ => false

/-- Kinds that begin a literal, an identifier or a parenthesized expression. -/
def startsPrimary (kind : TokenKind) : Bool :=
  kind.literal?.isSome || kind == .ident || kind == .lparen

/-- Kinds that begin an expression. -/
def startsExpr (kind : TokenKind) : Bool :=
  kind.startsPrimary || kind.isPrefixOperator

/-- Kinds behind which an operand that binds at least as tightly as `least` is complete:
they continue no postfix chain and are no operators of that strength. -/
def EndsOperand (least : Nat) (kind : TokenKind) : Prop :=
  kind.continuesChain = false ∧ ∀ strength, kind.precedence? = some strength → strength < least

/-- An operand ends before a kind that is no operator and continues no chain. -/
theorem endsOperand_of_none {kind : TokenKind} (hchain : kind.continuesChain = false)
    (hprec : kind.precedence? = none) (least : Nat) : kind.EndsOperand least :=
  ⟨hchain, fun s hs => absurd (hprec ▸ hs) (by simp)⟩

theorem continuesChain_of_precedence {kind : TokenKind} {strength : Nat}
    (h : kind.precedence? = some strength) : kind.continuesChain = false := by
  cases kind <;> first | rfl | simp [precedence?] at h

theorem not_startsPrimary_of_isPrefixOperator {kind : TokenKind}
    (h : kind.isPrefixOperator = true) : kind.startsPrimary = false := by
  cases kind <;> first | rfl | simp [isPrefixOperator] at h

end TokenKind

/-- Operators are spelled in one way each. -/
theorem operators_lookup : ∀ p ∈ operators, operators.lookup p.1 = some p.2 := by
  decide

theorem reservedWords_no_operator :
    ∀ p ∈ reservedWords, p.2.precedence? = none ∧ p.2.isPrefixOperator = false := by
  decide

/-- The text of an operator token determines its kind. -/
theorem operatorKind_of_spells {kind : TokenKind} {text : String}
    (h : kind.SpellsText text) (hop : kind.precedence?.isSome ∨ kind.isPrefixOperator = true) :
    operatorKind text = kind := by
  have listed : kind.isListed = true := by
    cases kind <;> first | rfl | simp [TokenKind.precedence?, TokenKind.isPrefixOperator] at hop
  rw [spellsText_of_isListed listed, List.mem_append] at h
  rcases h with h | h
  · rw [operatorKind, operators_lookup _ h]
    rfl
  · obtain ⟨hprec, hpre⟩ := reservedWords_no_operator _ h
    simp [hprec, hpre] at hop

namespace Expr

/-- The outermost operator, if there is one, binds at least as tightly as `least`. -/
def BindsAtLeast (least : Nat) (e : Expr) : Prop :=
  ∀ strength, e.outerStrength? = some strength → least ≤ strength

/-- Literals, identifiers and parenthesized expressions. -/
def isPrimary : Expr → Bool
  | literal _ _ | ident _ | paren _ => true
  | _ => false

/-- An operand of operators of strength `least`. -/
def operandForm (least : Nat) : Form Expr where
  lexemes := lexemes
  WellFormed e := e.WellFormed ∧ e.BindsAtLeast least
  levels := levels
  MayPrecede _ kind := kind.EndsOperand least

/-- An operand of a prefix operator. -/
def unaryForm : Form Expr where
  lexemes := lexemes
  WellFormed e := e.WellFormed ∧ e.isBinary = false
  levels := levels
  MayPrecede _ kind := kind.continuesChain = false

/-- A primary expression with a postfix chain. -/
def chainForm : Form Expr where
  lexemes := lexemes
  WellFormed e := e.WellFormed ∧ e.isPostfixBase = true
  levels := levels
  MayPrecede _ kind := kind.continuesChain = false

/-- A primary expression. -/
def primaryForm : Form Expr where
  lexemes := lexemes
  WellFormed e := e.WellFormed ∧ e.isPrimary = true
  levels := levels
  MayPrecede _ _ := True

/-- A binary expression that is well formed has a strength. -/
theorem WellFormed.outerStrength {e : Expr} (h : e.WellFormed) (hbin : e.isBinary = true) :
    ∃ strength, e.outerStrength? = some strength := by
  cases e with
  | binary op lhs rhs =>
      simp only [WellFormed] at h
      obtain ⟨⟨strength, hs, -⟩, -⟩ := h
      exact ⟨strength, hs⟩
  | _ => exact absurd hbin (by simp [isBinary])

theorem outerStrength?_of_not_binary {e : Expr} (h : e.isBinary = false) :
    e.outerStrength? = none := by
  cases e with
  | binary op lhs rhs => exact absurd h (by simp [isBinary])
  | _ => rfl

theorem bindsAtLeast_of_not_binary {e : Expr} (h : e.isBinary = false) (least : Nat) :
    e.BindsAtLeast least := by
  intro strength hs
  rw [outerStrength?_of_not_binary h] at hs
  exact absurd hs (by simp)

theorem not_binary_of_isPostfixBase {e : Expr} (h : e.isPostfixBase = true) :
    e.isBinary = false := by
  cases e <;> first | rfl | simp [isPostfixBase] at h

theorem isPostfixBase_of_isPrimary {e : Expr} (h : e.isPrimary = true) :
    e.isPostfixBase = true := by
  cases e <;> first | rfl | simp [isPrimary] at h

/-- The identifier that stands for any expression. -/
theorem spells_x : TokenKind.SpellsText .ident "x" := by
  constructor
  · exact ⟨by decide, by simp⟩
  · decide

theorem wellFormed_x : (ident "x").WellFormed := by
  rw [WellFormed]
  exact spells_x

theorem lexemes_call (callee : Expr) (args : List Expr) :
    (call callee args).lexemes = callee.lexemes ++ ⟨.lparen, "("⟩ ::
      (Lexeme.commaSeparated (args.map lexemes) ++ [⟨.rparen, ")"⟩]) := by
  rw [lexemes, lexemesEach_eq_map]
  rfl

theorem levels_call_le {callee : Expr} {args : List Expr} {n : Nat} :
    (call callee args).levels ≤ n + 1 ↔
      callee.levels ≤ n + 1 ∧ largest (args.map levels) ≤ n := by
  rw [levels, innerLevels, levelsOfAll_eq_largest, levels]
  omega

theorem wellFormed_call {callee : Expr} {args : List Expr} :
    (call callee args).WellFormed ↔ callee.isPostfixBase = true ∧ callee.WellFormed ∧
      ∀ e ∈ args, (operandForm 0).WellFormed e := by
  rw [WellFormed, allWellFormed_iff]
  refine and_congr Iff.rfl (and_congr Iff.rfl (forall₂_congr fun e _ => ?_))
  exact ⟨fun h => ⟨h, fun s _ => Nat.zero_le s⟩, And.left⟩

theorem levels_subscript_le {base index : Expr} {n : Nat} :
    (subscript base index).levels ≤ n + 1 ↔ base.levels ≤ n + 1 ∧ index.levels ≤ n := by
  rw [levels, innerLevels, levels, levels]
  omega

/-- A binary expression is well formed if its left operand binds more tightly than its
operator and its right operand at least as tightly. -/
theorem wellFormed_binary {op : String} {lhs rhs : Expr} :
    (binary op lhs rhs).WellFormed ↔
      ∃ strength, binaryStrength? op = some strength ∧
        (lhs.WellFormed ∧ ∀ s, lhs.outerStrength? = some s → strength < s) ∧
          (operandForm strength).WellFormed rhs := by
  rw [WellFormed]
  constructor
  · rintro ⟨⟨strength, hop, hlhs, hrhs⟩, lwf, rwf⟩
    refine ⟨strength, hop, ⟨lwf, fun s hs => ?_⟩, rwf, fun s hs => ?_⟩
    · cases lhs with
      | binary =>
          obtain ⟨s', hs', hlt⟩ := hlhs rfl
          obtain rfl := Option.some.inj (hs.symm.trans hs')
          exact hlt
      | _ => exact absurd hs (by simp [outerStrength?])
    · cases rhs with
      | binary =>
          obtain ⟨s', hs', hle⟩ := hrhs rfl
          obtain rfl := Option.some.inj (hs.symm.trans hs')
          exact hle
      | _ => exact absurd hs (by simp [outerStrength?])
  · rintro ⟨strength, hop, ⟨lwf, hlhs⟩, rwf, hrhs⟩
    refine ⟨⟨strength, hop, fun hbin => ?_, fun hbin => ?_⟩, lwf, rwf⟩
    · obtain ⟨s, hs⟩ := lwf.outerStrength hbin
      exact ⟨s, hs, hlhs s hs⟩
    · obtain ⟨s, hs⟩ := rwf.outerStrength hbin
      exact ⟨s, hs, hrhs s hs⟩

theorem levels_binary_le {op : String} {lhs rhs : Expr} {n : Nat} :
    (binary op lhs rhs).levels ≤ n + 1 ↔ lhs.levels ≤ n + 1 ∧ rhs.levels ≤ n := by
  rw [levels, innerLevels, levels, levels]
  omega

theorem levels_prefixOp_le {op : String} {arg : Expr} {n : Nat} :
    (prefixOp op arg).levels ≤ n + 1 ↔ arg.levels ≤ n := by
  rw [levels, innerLevels, levels]
  omega

/-- An expression begins like one, and a postfix chain like a primary expression. -/
theorem WellFormed.lexemes_starts : (e : Expr) → e.WellFormed →
    ∃ l ls, e.lexemes = l :: ls ∧ l.kind.startsExpr = true ∧
      (e.isPostfixBase = true → l.kind.startsPrimary = true)
  | literal kind text, _ => ⟨_, _, rfl, by cases kind <;> rfl, fun _ => by cases kind <;> rfl⟩
  | ident name, _ => ⟨_, _, rfl, rfl, fun _ => rfl⟩
  | paren inner, _ => ⟨_, _, rfl, rfl, fun _ => rfl⟩
  | binary op lhs rhs, h => by
      simp only [WellFormed] at h
      obtain ⟨l, ls, hl, hstart, -⟩ := WellFormed.lexemes_starts lhs h.2.1
      exact ⟨l, _, by rw [lexemes, hl]; rfl, hstart, fun hbase => absurd hbase (by simp [isPostfixBase])⟩
  | prefixOp op arg, h => by
      simp only [WellFormed, IsPrefixSpelling] at h
      refine ⟨_, _, rfl, ?_, fun hbase => absurd hbase (by simp [isPostfixBase])⟩
      simp [Lexeme.operator, TokenKind.startsExpr, h.1]
  | postIncrement base, h => by
      simp only [WellFormed] at h
      obtain ⟨l, ls, hl, hstart, hprimary⟩ := WellFormed.lexemes_starts base h.2
      exact ⟨l, _, by rw [lexemes, hl]; rfl, hstart, fun _ => hprimary h.1⟩
  | postDecrement base, h => by
      simp only [WellFormed] at h
      obtain ⟨l, ls, hl, hstart, hprimary⟩ := WellFormed.lexemes_starts base h.2
      exact ⟨l, _, by rw [lexemes, hl]; rfl, hstart, fun _ => hprimary h.1⟩
  | call callee args, h => by
      simp only [WellFormed] at h
      obtain ⟨l, ls, hl, hstart, hprimary⟩ := WellFormed.lexemes_starts callee h.2.1
      exact ⟨l, _, by rw [lexemes, hl]; rfl, hstart, fun _ => hprimary h.1⟩
  | subscript base index, h => by
      simp only [WellFormed] at h
      obtain ⟨l, ls, hl, hstart, hprimary⟩ := WellFormed.lexemes_starts base h.2.1
      exact ⟨l, _, by rw [lexemes, hl]; rfl, hstart, fun _ => hprimary h.1⟩

end Expr

theorem TokenKind.literal?_eq_some {kind : TokenKind} {family : LiteralKind} :
    kind.literal? = some family ↔ kind = family.tokenKind := by
  cases kind <;> cases family <;> decide

namespace Nested

open ProcLang.Parser TokenReader ProcLang.Expr

variable {inner : Nested Parser} {n : Nat}
  (operand : ∀ least, (inner.operand least).Parses (operandForm least) n)

include operand

omit operand in
/-- A token that is an expression by itself has been read. -/
theorem leaf_read {e : Expr} {t : Token} {r : List Token} (lex : Lexical (t :: r))
    {kind : TokenKind} (hkind : t.kind = kind) (lexemes : e.lexemes = [⟨kind, t.text⟩])
    (wf : kind.SpellsText t.text → e.WellFormed) (leaf : e.innerLevels = 0)
    (primary : e.isPrimary = true) : primaryForm.Read (n + 1) e (t :: r) r := by
  subst hkind
  refine ⟨?_, ⟨wf (lex t (List.mem_cons_self ..)), primary⟩, ?_, trivial⟩
  · show Reads e.lexemes (t :: r) r
    rw [lexemes]
    exact reads_singleton.2 ⟨t, rfl, rfl⟩
  · show e.levels ≤ n + 1
    rw [levels, leaf]
    omega

theorem primary_sound (ts : List Token) (lex : Lexical ts) :
    inner.primary.Leads ts (fun e r => primaryForm.Read (n + 1) e ts r) (primaryForm.Begun ts) := by
  have here : primaryForm.Begun ts ts := ⟨ident "x", ⟨wellFormed_x, rfl⟩, .start⟩
  unfold primary
  rw [leads_choose rfl]
  refine ⟨?_, fun _ => ?_⟩
  -- a literal
  · rintro t r family rfl hfamily
    exact leaf_read lex (TokenKind.literal?_eq_some.1 hfamily) rfl id rfl rfl
  rw [leads_choose (only_end (by decide))]
  refine ⟨?_, fun _ => ?_⟩
  -- an identifier
  · rintro t r _ rfl hident
    exact leaf_read lex (only_eq_some.1 hident) rfl id rfl rfl
  -- an expression in parentheses
  refine leads_skip_mark (l := ⟨.lparen, "("⟩) (by decide) lex (fun m opened lexm => ?_) here
  refine (operand 0).leads_bind lexm (fun e m' read lexm' => ?_) (fun e r wf begins => ?_)
  · refine leads_skip_mark rparen_isMark lexm' (fun r closed _ => ?_) ?_
    · refine ⟨opened.cons (read.reads.append closed), ⟨read.wellFormed.1, rfl⟩, ?_, trivial⟩
      have := read.levels_le
      simp only [operandForm, primaryForm, levels, innerLevels] at this ⊢
      omega
    · exact Form.begun_of_prefix (a := paren e) ⟨read.wellFormed.1, rfl⟩ opened
        read.reads.begins (by simp [primaryForm, operandForm, lexemes, Lexeme.inParens])
  · exact Form.begun_of_prefix (a := paren e) ⟨wf.1, rfl⟩ opened begins
      (by simp [primaryForm, operandForm, lexemes, Lexeme.inParens])

theorem primary_parses : inner.primary.Parses primaryForm (n + 1) where
  sound := primary_sound operand
  complete e ts rest read := by
    obtain ⟨reads, ⟨wf, primary⟩, levels, -⟩ := read
    cases e with
    | literal kind text =>
        obtain ⟨⟨⟨kind', text'⟩, span⟩, rfl, ht⟩ := reads_singleton.1 reads
        obtain ⟨rfl, rfl⟩ := Lexeme.mk.inj ht
        exact Yields.taken (TokenKind.literal?_eq_some.2 rfl) yields_pure
    | ident name =>
        obtain ⟨⟨⟨kind', text'⟩, span⟩, rfl, ht⟩ := reads_singleton.1 reads
        obtain ⟨rfl, rfl⟩ := Lexeme.mk.inj ht
        exact Yields.otherwise rfl (Yields.taken (only_self _) yields_pure)
    | paren e =>
        simp only [primaryForm, lexemes, Lexeme.inParens, List.cons_append] at reads
        obtain ⟨m, opened, reads⟩ := reads_cons.1 reads
        obtain ⟨m', body, closed⟩ := reads_append.1 reads
        have head : headKind ts = .lparen := opened.headKind_eq
        have head' : headKind m' = .rparen := closed.headKind_eq
        refine Yields.otherwise (by rw [head]; rfl) (Yields.otherwise (by rw [head]; rfl) ?_)
        refine (yields_skip opened).bind (((operand 0).complete e m m' ⟨body, ?_, ?_, ?_⟩).bind
          ((yields_skip closed).bind yields_pure))
        · rw [primaryForm, WellFormed] at *
          exact ⟨wf, fun strength _ => Nat.zero_le strength⟩
        · simp only [operandForm, primaryForm, Expr.levels, innerLevels] at levels ⊢
          omega
        · rw [head']
          exact TokenKind.endsOperand_of_none rfl rfl 0
    | _ => exact absurd primary (by simp [isPrimary])

/-- The arguments of a call, with the closing parenthesis. -/
theorem args_parses : (parenList inner.expr).Parses (operandForm 0).parenList n :=
  parenList_parses (operand 0)
    (fun _ => ⟨TokenKind.endsOperand_of_none rfl rfl 0, TokenKind.endsOperand_of_none rfl rfl 0⟩)
    fun e wf => by
      obtain ⟨l, ls, hl, hstart, -⟩ := WellFormed.lexemes_starts e wf.1
      refine ⟨l, ls, hl, fun hkind => ?_⟩
      rw [hkind] at hstart
      exact absurd hstart (by decide)

/-- What holds between the rounds of a postfix chain: the tokens up to `m` are the chain
collected so far. -/
structure ChainRead (n : Nat) (ts : List Token) (e : Expr) (m : List Token) : Prop where
  reads : Reads e.lexemes ts m
  wellFormed : chainForm.WellFormed e
  levels_le : e.levels ≤ n
  lexical : Lexical m

/-- One round of a postfix chain adds a link or comes to the end of the chain. -/
theorem postfixRound_sound {ts m : List Token} {e : Expr} (inv : ChainRead (n + 1) ts e m) :
    (inner.postfixRound e).Leads m
      (Keeps (ChainRead (n + 1) ts) (fun a r => chainForm.Read (n + 1) a ts r) m)
      (chainForm.Begun ts) := by
  obtain ⟨reads, ⟨wf, base⟩, hlevels, lexm⟩ := inv
  have here : chainForm.Begun ts m := ⟨e, ⟨wf, base⟩, reads.begins⟩
  unfold postfixRound
  rw [leads_bind, leads_kindAhead]
  split
  -- an increment
  · refine leads_skip_mark (l := ⟨.plusPlus, "++"⟩) (by decide) lexm (fun r read lexr => ?_) here
    refine ⟨read.length_lt (by simp), reads.append read, ⟨?_, rfl⟩, hlevels, lexr⟩
    rw [WellFormed]
    exact ⟨base, wf⟩
  -- a decrement
  · refine leads_skip_mark (l := ⟨.minusMinus, "--"⟩) (by decide) lexm (fun r read lexr => ?_) here
    refine ⟨read.length_lt (by simp), reads.append read, ⟨?_, rfl⟩, hlevels, lexr⟩
    rw [WellFormed]
    exact ⟨base, wf⟩
  -- a call
  · refine leads_skip_mark (l := ⟨.lparen, "("⟩) (by decide) lexm (fun m' opened lexm' => ?_) here
    refine (args_parses operand).leads_bind lexm' (fun args r read lexr => ?_)
      (fun args r awf begins => ?_)
    · show r.length < m.length ∧ ChainRead (n + 1) ts (call e args) r
      refine ⟨?_, ?_, ⟨wellFormed_call.2 ⟨base, wf, read.wellFormed⟩, rfl⟩,
        levels_call_le.2 ⟨hlevels, read.levels_le⟩, lexr⟩
      · have := opened.length_lt (by simp)
        have := read.reads.length_eq
        omega
      · show Reads (call e args).lexemes ts r
        rw [lexemes_call]
        exact reads.append (opened.cons read.reads)
    · refine ⟨call e args, ⟨wellFormed_call.2 ⟨base, wf, awf⟩, rfl⟩, ?_⟩
      show Begins (call e args).lexemes ts r
      rw [lexemes_call]
      exact reads.append_begins (opened.append_begins begins)
  -- a subscript
  · refine leads_skip_mark (l := ⟨.lbracket, "["⟩) (by decide) lexm (fun m' opened lexm' => ?_) here
    have whole (index : Expr) (iwf : index.WellFormed) :
        chainForm.WellFormed (subscript e index) := by
      refine ⟨?_, rfl⟩
      rw [WellFormed]
      exact ⟨base, wf, iwf⟩
    refine (operand 0).leads_bind lexm' (fun index m'' read lexm'' => ?_)
      (fun index r iwf begins => ?_)
    · have front := reads.append (opened.append read.reads)
      refine leads_skip_mark (l := ⟨.rbracket, "]"⟩) (by decide) lexm'' (fun r closed lexr => ?_) ?_
      · show r.length < m.length ∧ ChainRead (n + 1) ts (subscript e index) r
        refine ⟨?_, ?_, whole index read.wellFormed.1,
          levels_subscript_le.2 ⟨hlevels, read.levels_le⟩, lexr⟩
        · have := opened.length_lt (by simp)
          have := read.reads.length_eq
          have := closed.length_eq
          omega
        · have := front.append closed
          simpa [lexemes, operandForm] using this
      · exact Form.begun_of_reads (whole index read.wellFormed.1) front
          (by simp [chainForm, operandForm, lexemes])
    · exact Form.begun_of_prefix (whole index iwf.1) (reads.append opened) begins
        (by simp [chainForm, operandForm, lexemes])
  -- the end: no kind that goes on with the chain is ahead
  · rename_i h₁ h₂ h₃ h₄
    refine ⟨reads, ⟨wf, base⟩, hlevels, ?_⟩
    show (headKind m).continuesChain = false
    unfold TokenKind.continuesChain
    split
    · exact absurd ‹_› h₁
    · exact absurd ‹_› h₂
    · exact absurd ‹_› h₃
    · exact absurd ‹_› h₄
    · rfl

theorem chain_sound (ts : List Token) (lex : Lexical ts) :
    inner.postfixChain.Leads ts (fun e r => chainForm.Read (n + 1) e ts r)
      (chainForm.Begun ts) := by
  refine (primary_parses operand).leads_bind lex (fun base m read lexm => ?_)
    (fun e r wf begins => ⟨e, ⟨wf.1, isPostfixBase_of_isPrimary wf.2⟩, begins⟩)
  apply Leads.loop (ChainRead (n + 1) ts)
  · intro e m inv
    exact postfixRound_sound operand inv
  · exact ⟨read.reads, ⟨read.wellFormed.1, isPostfixBase_of_isPrimary read.wellFormed.2⟩,
      read.levels_le, lexm⟩

/-- From the bases outward: where the loop of a postfix chain goes on behind a base, the
whole chain has come to the same place. -/
theorem chain_complete : (e : Expr) → e.WellFormed → e.isPostfixBase = true →
    e.levels ≤ n + 1 → (ts mid rest : List Token) → (a : Expr) → Reads e.lexemes ts mid →
      (TokenReader.loop inner.postfixRound e : Parser Expr).Yields mid a rest →
        inner.postfixChain.Yields ts a rest
  | literal kind text, wf, _, hlevels, ts, mid, _, _, reads, behind =>
      ((primary_parses operand).complete (literal kind text) ts mid
        ⟨reads, ⟨wf, rfl⟩, hlevels, trivial⟩).bind behind
  | ident name, wf, _, hlevels, ts, mid, _, _, reads, behind =>
      ((primary_parses operand).complete (ident name) ts mid
        ⟨reads, ⟨wf, rfl⟩, hlevels, trivial⟩).bind behind
  | paren e, wf, _, hlevels, ts, mid, _, _, reads, behind =>
      ((primary_parses operand).complete (paren e) ts mid
        ⟨reads, ⟨wf, rfl⟩, hlevels, trivial⟩).bind behind
  | binary op lhs rhs, _, base, _, _, _, _, _, _, _ => absurd base (by simp [isPostfixBase])
  | prefixOp op arg, _, base, _, _, _, _, _, _, _ => absurd base (by simp [isPostfixBase])
  | postIncrement e, wf, _, hlevels, ts, mid, rest, a, reads, behind => by
      simp only [WellFormed] at wf
      obtain ⟨m, body, mark⟩ := reads_append.1 reads
      have head : headKind m = .plusPlus := mark.headKind_eq
      refine chain_complete e wf.2 wf.1 hlevels ts m rest a body
        (Yields.again (t := postIncrement e) ?_ (mark.length_lt (by simp)) behind)
      apply yields_kindAhead.bind
      rw [head]
      exact (yields_skip mark).bind yields_pure
  | postDecrement e, wf, _, hlevels, ts, mid, rest, a, reads, behind => by
      simp only [WellFormed] at wf
      obtain ⟨m, body, mark⟩ := reads_append.1 reads
      have head : headKind m = .minusMinus := mark.headKind_eq
      refine chain_complete e wf.2 wf.1 hlevels ts m rest a body
        (Yields.again (t := postDecrement e) ?_ (mark.length_lt (by simp)) behind)
      apply yields_kindAhead.bind
      rw [head]
      exact (yields_skip mark).bind yields_pure
  | call callee args, wf, _, hlevels, ts, mid, rest, a, reads, behind => by
      obtain ⟨base, cwf, awf⟩ := wellFormed_call.1 wf
      obtain ⟨clevels, alevels⟩ := levels_call_le.1 hlevels
      rw [lexemes_call] at reads
      obtain ⟨m, body, reads⟩ := reads_append.1 reads
      obtain ⟨m', opened, closed⟩ := reads_cons.1 reads
      have head : headKind m = .lparen := opened.headKind_eq
      have shorter : mid.length < m.length := by
        have := opened.length_lt (by simp)
        have := closed.length_eq
        omega
      refine chain_complete callee cwf base clevels ts m rest a body
        (Yields.again (t := call callee args) ?_ shorter behind)
      apply yields_kindAhead.bind
      rw [head]
      apply (yields_skip opened).bind
      exact ((args_parses operand).complete args m' mid ⟨closed, awf, alevels, trivial⟩).bind
        yields_pure
  | subscript e index, wf, _, hlevels, ts, mid, rest, a, reads, behind => by
      obtain ⟨blevels, ilevels⟩ := levels_subscript_le.1 hlevels
      simp only [WellFormed] at wf
      obtain ⟨base, bwf, iwf⟩ := wf
      rw [lexemes, List.append_assoc] at reads
      obtain ⟨m, body, reads⟩ := reads_append.1 reads
      obtain ⟨m', opened, reads⟩ := reads_cons.1 reads
      obtain ⟨m'', inside, closed⟩ := reads_append.1 reads
      have head : headKind m = .lbracket := opened.headKind_eq
      have head'' : headKind m'' = .rbracket := closed.headKind_eq
      have shorter : mid.length < m.length := by
        have := opened.length_lt (by simp)
        have := inside.length_eq
        have := closed.length_eq
        omega
      refine chain_complete e bwf base blevels ts m rest a body
        (Yields.again (t := subscript e index) ?_ shorter behind)
      apply yields_kindAhead.bind
      rw [head]
      refine (yields_skip opened).bind (((operand 0).complete index m' m'' ⟨inside, ?_, ?_, ?_⟩).bind
        ((yields_skip closed).bind yields_pure))
      · exact ⟨iwf, fun s _ => Nat.zero_le s⟩
      · exact ilevels
      · rw [head'']
        exact TokenKind.endsOperand_of_none rfl rfl 0

theorem chain_parses : inner.postfixChain.Parses chainForm (n + 1) where
  sound := chain_sound operand
  complete e ts rest read := by
    refine chain_complete operand e read.wellFormed.1 read.wellFormed.2 read.levels_le ts rest
      rest e read.reads (Yields.done ?_)
    have ends : (headKind rest).continuesChain = false := read.mayPrecede
    apply yields_kindAhead.bind
    split
    · exact absurd ends (by simp [TokenKind.continuesChain, *])
    · exact absurd ends (by simp [TokenKind.continuesChain, *])
    · exact absurd ends (by simp [TokenKind.continuesChain, *])
    · exact absurd ends (by simp [TokenKind.continuesChain, *])
    · exact yields_pure

variable (unary : inner.unary.Parses unaryForm n)

include unary

omit operand unary in
/-- A token whose kind is that of an operator has been read as its lexeme. -/
theorem operator_read {t : Token} {r : List Token} (hkind : t.kind = operatorKind t.text) :
    Reads [Lexeme.operator t.text] (t :: r) r := by
  refine reads_singleton.2 ⟨t, rfl, ?_⟩
  rw [Lexeme.operator, ← hkind]

theorem unaryExpr_sound (ts : List Token) (lex : Lexical ts) :
    inner.unaryExpr.Leads ts (fun e r => unaryForm.Read (n + 1) e ts r) (unaryForm.Begun ts) := by
  unfold unaryExpr
  rw [leads_choose rfl]
  constructor
  -- a prefix operator and its operand
  · rintro t r u rfl hu
    have hopens : t.kind.isPrefixOperator = true := by
      by_cases h : t.kind.isPrefixOperator = true
      · exact h
      · rw [if_neg h] at hu
        exact absurd hu (by simp)
    have hkind := operatorKind_of_spells (lex t (List.mem_cons_self ..)) (.inr hopens)
    have read : Reads [Lexeme.operator t.text] (t :: r) r := operator_read hkind.symm
    have spelling : IsPrefixSpelling t.text := by
      rw [IsPrefixSpelling, hkind]
      exact hopens
    have whole (arg : Expr) (wf : unaryForm.WellFormed arg) :
        unaryForm.WellFormed (prefixOp t.text arg) := by
      refine ⟨?_, rfl⟩
      rw [WellFormed]
      exact ⟨spelling, wf.2, wf.1⟩
    refine unary.leads_bind (lex.of_reads read) (fun arg r' aread _ => ?_)
      (fun arg r' awf begins => ?_)
    · exact ⟨read.append aread.reads, whole arg aread.wellFormed,
        levels_prefixOp_le.2 aread.levels_le, aread.mayPrecede⟩
    · exact Form.begun_of_prefix (whole arg awf) read begins List.prefix_rfl
  -- a postfix chain
  · intro _
    apply (chain_sound operand ts lex).mono
    · intro e r read
      exact ⟨read.reads, ⟨read.wellFormed.1, not_binary_of_isPostfixBase read.wellFormed.2⟩,
        read.levels_le, read.mayPrecede⟩
    · rintro r ⟨e, wf, begins⟩
      exact ⟨e, ⟨wf.1, not_binary_of_isPostfixBase wf.2⟩, begins⟩

theorem unaryExpr_parses : inner.unaryExpr.Parses unaryForm (n + 1) where
  sound := unaryExpr_sound operand unary
  complete e ts rest read := by
    obtain ⟨reads, ⟨wf, notBinary⟩, hlevels, ends⟩ := read
    -- a postfix chain begins with no prefix operator, so it is looked for
    have chain (base : e.isPostfixBase = true) : inner.unaryExpr.Yields ts e rest := by
      obtain ⟨l, ls, hl, -, hprimary⟩ := wf.lexemes_starts
      have head : headKind ts = l.kind := by
        have reads : Reads e.lexemes ts rest := reads
        rw [hl] at reads
        exact reads.headKind_eq
      refine Yields.otherwise ?_
        ((chain_parses operand).complete e ts rest ⟨reads, ⟨wf, base⟩, hlevels, ends⟩)
      rw [head, if_neg]
      intro hopens
      have := TokenKind.not_startsPrimary_of_isPrefixOperator hopens
      rw [hprimary base] at this
      exact absurd this (by simp)
    cases e with
    | binary => exact absurd notBinary (by simp [isBinary])
    | prefixOp op arg =>
        rw [WellFormed] at wf
        obtain ⟨m, mark, body⟩ := reads_cons.1 reads
        obtain ⟨⟨⟨kind, text⟩, span⟩, rfl, ht⟩ := reads_singleton.1 mark
        obtain ⟨rfl, rfl⟩ := Lexeme.mk.inj ht
        apply Yields.taken (b := ()) (if_pos wf.1)
        exact (unary.complete arg m rest
          ⟨body, ⟨wf.2.2, wf.2.1⟩, levels_prefixOp_le.1 hlevels, ends⟩).bind yields_pure
    | _ => exact chain rfl

/-- What holds between the rounds of binary operators: the tokens up to `m` are the left
operand collected so far, and it binds more tightly than an operator ahead of `m`. -/
structure OperandRead (least n : Nat) (ts : List Token) (lhs : Expr) (m : List Token) :
    Prop where
  reads : Reads lhs.lexemes ts m
  wellFormed : (operandForm least).WellFormed lhs
  levels_le : lhs.levels ≤ n
  chainEnds : (headKind m).continuesChain = false
  tighter : ∀ s, lhs.outerStrength? = some s → (headKind m).EndsOperand s
  lexical : Lexical m

omit unary in
/-- One round of binary operators takes in a right operand or leaves the operator. -/
theorem binaryRound_sound {least : Nat} {ts m : List Token} {lhs : Expr}
    (inv : OperandRead least (n + 1) ts lhs m) :
    (inner.binaryRound least lhs).Leads m
      (Keeps (OperandRead least (n + 1) ts) (fun e r => (operandForm least).Read (n + 1) e ts r) m)
      ((operandForm least).Begun ts) := by
  obtain ⟨reads, wf, hlevels, ends, tighter, lexm⟩ := inv
  unfold binaryRound
  rw [leads_choose rfl]
  constructor
  · rintro t r strength rfl hstrength
    obtain ⟨hprec, hleast⟩ := Option.filter_eq_some_iff.1 hstrength
    have hle : least ≤ strength := by simpa using hleast
    have hkind := operatorKind_of_spells (lexm t (List.mem_cons_self ..))
      (.inl (Option.isSome_iff_exists.2 ⟨strength, hprec⟩))
    have hop : binaryStrength? t.text = some strength := by rw [binaryStrength?, hkind, hprec]
    have read : Reads [Lexeme.operator t.text] (t :: r) r := operator_read hkind.symm
    have outer {rhs : Expr} {s : Nat}
        (hs : (binary t.text lhs rhs).outerStrength? = some s) : strength = s := by
      rw [outerStrength?, hop] at hs
      exact Option.some.inj hs
    have whole (rhs : Expr) (rwf : (operandForm strength).WellFormed rhs) :
        (operandForm least).WellFormed (binary t.text lhs rhs) := by
      refine ⟨wellFormed_binary.2 ⟨strength, hop, ⟨wf.1, fun s hs => ?_⟩, rwf⟩, fun s hs => ?_⟩
      · exact (tighter s hs).2 strength hprec
      · rw [← outer hs]
        exact hle
    refine (operand strength).leads_bind (lexm.of_reads read) (fun rhs r' rread lexr' => ?_)
      (fun rhs r' rwf begins => ?_)
    · refine ⟨?_, ?_, whole rhs rread.wellFormed,
        levels_binary_le.2 ⟨hlevels, rread.levels_le⟩, rread.mayPrecede.1, fun s hs => ?_, lexr'⟩
      · show r'.length < (t :: r).length
        have := read.length_lt (by simp)
        have := rread.reads.length_eq
        omega
      · exact reads.append (read.append rread.reads)
      -- what may stand behind the right operand ends the whole as well
      · rw [← outer hs]
        exact rread.mayPrecede
    · exact Form.begun_of_prefix (whole rhs rwf) (reads.append read) begins
        (by simp [operandForm, lexemes])
  · intro hnone
    refine ⟨reads, wf, hlevels, ends, fun s hs => ?_⟩
    replace hs : (headKind m).precedence? = some s := hs
    rcases Nat.lt_or_ge s least with hlt | hle
    · exact hlt
    · rw [hs] at hnone
      exact absurd hnone (by simp [hle])

theorem operatorExpr_sound (least : Nat) (ts : List Token) (lex : Lexical ts) :
    (inner.operatorExpr least).Leads ts (fun e r => (operandForm least).Read (n + 1) e ts r)
      ((operandForm least).Begun ts) := by
  refine (unaryExpr_parses operand unary).leads_bind lex (fun first m read lexm => ?_)
    (fun e r wf begins => ⟨e, ⟨wf.1, bindsAtLeast_of_not_binary wf.2 least⟩, begins⟩)
  apply Leads.loop (OperandRead least (n + 1) ts)
  · intro lhs m inv
    exact binaryRound_sound operand inv
  · refine ⟨read.reads, ⟨read.wellFormed.1, bindsAtLeast_of_not_binary read.wellFormed.2 least⟩,
      read.levels_le, read.mayPrecede, fun s hs => ?_, lexm⟩
    rw [outerStrength?_of_not_binary read.wellFormed.2] at hs
    exact absurd hs (by simp)

/-- From the left operands outward: where the loop of the binary operators goes on behind
an operand, the whole expression has come to the same place. -/
theorem operatorExpr_complete {least : Nat} (e : Expr) (wf : (operandForm least).WellFormed e)
    (hlevels : e.levels ≤ n + 1) (ts mid rest : List Token) (a : Expr)
    (reads : Reads e.lexemes ts mid) (ends : (headKind mid).continuesChain = false)
    (looser : ∀ s, e.outerStrength? = some s → (headKind mid).EndsOperand s)
    (behind : (TokenReader.loop (inner.binaryRound least) e : Parser Expr).Yields mid a rest) :
    (inner.operatorExpr least).Yields ts a rest := by
  have simple (notBinary : e.isBinary = false) : (inner.operatorExpr least).Yields ts a rest :=
    ((unaryExpr_parses operand unary).complete e ts mid
      ⟨reads, ⟨wf.1, notBinary⟩, hlevels, ends⟩).bind behind
  cases e with
  | binary op lhs rhs =>
      obtain ⟨strength, hop, ⟨lwf, tighter⟩, rwf⟩ := wellFormed_binary.1 wf.1
      obtain ⟨llevels, rlevels⟩ := levels_binary_le.1 hlevels
      have hle : least ≤ strength := wf.2 strength hop
      obtain ⟨m, left, behindLeft⟩ := reads_append.1 reads
      obtain ⟨m', mark, right⟩ := reads_cons.1 behindLeft
      obtain ⟨⟨⟨kind, text⟩, span⟩, rfl, ht⟩ := reads_singleton.1 mark
      obtain ⟨rfl, rfl⟩ := Lexeme.mk.inj ht
      have hprec : (operatorKind text).precedence? = some strength := hop
      have chain := TokenKind.continuesChain_of_precedence hprec
      have shorter : mid.length < (⟨⟨operatorKind text, text⟩, span⟩ :: m').length := by
        have := right.length_eq
        rw [List.length_cons]
        omega
      refine operatorExpr_complete lhs ⟨lwf, fun s hs => ?_⟩ llevels ts _ rest a left chain
        (fun s hs => ⟨chain, fun s' hs' => ?_⟩)
        (Yields.again (t := binary text lhs rhs) ?_ shorter behind)
      · have := tighter s hs
        omega
      · obtain rfl := Option.some.inj (hprec.symm.trans hs')
        exact tighter s hs
      · refine Yields.taken (b := strength) ?_ ?_
        · rw [hprec]
          simp [hle]
        · exact ((operand strength).complete rhs m' mid
            ⟨right, rwf, rlevels, looser strength hop⟩).bind yields_pure
  | _ => exact simple rfl

/-- An expression is read exactly, one level above its operands. -/
theorem operatorExpr_parses (least : Nat) :
    (inner.operatorExpr least).Parses (operandForm least) (n + 1) where
  sound := operatorExpr_sound operand unary least
  complete e ts rest read := by
    obtain ⟨reads, wf, hlevels, ends, looser⟩ := read
    refine operatorExpr_complete operand unary e wf hlevels ts rest rest e reads ends
      (fun s hs => ⟨ends, fun strength h => ?_⟩) (Yields.done ?_)
    · exact Nat.lt_of_lt_of_le (looser strength h) (wf.2 s hs)
    · refine Yields.otherwise ?_ yields_pure
      rw [Option.filter_eq_none_iff]
      intro strength h
      have := looser strength h
      simp only [decide_eq_true_eq]
      omega

end Nested

end ProcLang
