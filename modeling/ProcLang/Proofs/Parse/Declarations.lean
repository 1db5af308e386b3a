import ProcLang.Proofs.Parse.Statements

/-!
# Declarations and programs are read exactly

A top-level declaration is a function if a parenthesis stands behind the declared name,
and a list of variables otherwise. With this the parser of whole programs is tied to the
well-formed programs (`program_parses`).
-/

set_option autoImplicit false

namespace ProcLang

open ProcLang.Parser TokenReader

/-- The kinds ahead are those of the lexemes and those behind them. -/
theorem Reads.kinds_eq {ls : List Lexeme} {ts rest : List Token} (h : Reads ls ts rest) :
    ts.map (·.kind) = ls.map (·.kind) ++ rest.map (·.kind) := by
  obtain ⟨front, rfl, rfl⟩ := h
  simp

theorem yields_lookingAt {pattern : List TokenKind} {ts : List Token} :
    (TokenReader.lookingAt pattern : Parser Bool).Yields ts
      (pattern.isPrefixOf (ts.map (·.kind))) ts := by
  refine ⟨congrArg some ?_, rfl⟩
  rw [Bool.eq_iff_iff, List.isPrefixOf_iff_prefix, beq_iff_eq, List.prefix_iff_eq_take,
    List.map_take]
  exact eq_comm

/-! ## Declarations as forms -/

/-- A function as a form. -/
def FuncDecl.form : Form FuncDecl where
  lexemes := FuncDecl.lexemes
  WellFormed := FuncDecl.WellFormed
  levels d := (Decl.func d).levels
  MayPrecede _ _ := True

/-- A top-level declaration as a form. -/
def Decl.form : Form Decl where
  lexemes := Decl.lexemes
  WellFormed := Decl.WellFormed
  levels := Decl.levels
  MayPrecede _ _ := True

/-- A program as a form; the input ends behind it. -/
def Program.form : Form Program where
  lexemes := Program.lexemes
  WellFormed := Program.WellFormed
  levels := Program.levels
  MayPrecede _ kind := kind = .endOfInput

theorem Program.lexemes_eq_many (decls : List Decl) :
    form.lexemes ⟨decls⟩ = (Decl.form.many [] (· = .endOfInput)).lexemes decls :=
  (List.append_nil _).symm

/-- What stands in a function before its body or its semicolon. -/
def FuncDecl.headLexemes (d : FuncDecl) : List Lexeme :=
  ⟨.typeName, d.typeName⟩ :: (d.declarator.lexemes ++
    ⟨.lparen, "("⟩ :: Param.form.parenList.lexemes d.params)

theorem FuncDecl.lexemes_prototype (typeName : String) (d : Declarator) (params : List Param) :
    FuncDecl.lexemes ⟨typeName, d, params, none⟩ =
      headLexemes ⟨typeName, d, params, none⟩ ++ [⟨.semicolon, ";"⟩] := by
  simp [lexemes, headLexemes, Form.parenList, Param.form, Lexeme.inParens]

theorem FuncDecl.lexemes_definition (typeName : String) (d : Declarator) (params : List Param)
    (body : List Stmt) :
    FuncDecl.lexemes ⟨typeName, d, params, some body⟩ =
      headLexemes ⟨typeName, d, params, none⟩ ++
        ⟨.lbrace, "\x7b"⟩ :: Stmt.blockForm.lexemes body := by
  simp [lexemes, headLexemes, Form.parenList, Param.form, Lexeme.inParens, Lexeme.inBraces,
    Stmt.blockForm, Form.many, Stmt.form, Stmt.lexemesAll_eq_flatMap]

theorem FuncDecl.wellFormed_definition {typeName : String} {d : Declarator} {params : List Param}
    {body : List Stmt} :
    FuncDecl.WellFormed ⟨typeName, d, params, some body⟩ ↔
      FuncDecl.WellFormed ⟨typeName, d, params, none⟩ ∧ Stmt.blockForm.WellFormed body := by
  simp [WellFormed, Stmt.allWellFormed_iff, Stmt.blockForm, Form.many, Stmt.form, and_assoc]

theorem FuncDecl.levels_definition_le {typeName : String} {d : Declarator} {params : List Param}
    {body : List Stmt} {n : Nat} :
    FuncDecl.form.levels ⟨typeName, d, params, some body⟩ ≤ n ↔ Stmt.blockForm.levels body ≤ n := by
  show Stmt.levelsOfAll body ≤ n ↔ largest (body.map Stmt.levels) ≤ n
  rw [Stmt.levelsOfAll_eq_largest]

/-- The first tokens of a declaration up to the one behind the declared name. -/
theorem lookahead_function (d : Declarator) (kind : TokenKind) (more : List TokenKind) :
    ([.typeName, .ident, .lparen].isPrefixOf (.typeName :: (d.lexemes.map (·.kind) ++ kind :: more))
      || [.typeName, .star, .ident, .lparen].isPrefixOf
        (.typeName :: (d.lexemes.map (·.kind) ++ kind :: more))) = (kind == .lparen) := by
  cases d with
  | plain name => cases kind <;> rfl
  | pointer name => cases kind <;> rfl

theorem lookahead_variable (d : Declarator) (more : List TokenKind) :
    ([.typeName, .ident].isPrefixOf (.typeName :: (d.lexemes.map (·.kind) ++ more))
      || [.typeName, .star, .ident].isPrefixOf
        (.typeName :: (d.lexemes.map (·.kind) ++ more))) = true := by
  cases d <;> rfl

theorem FuncDecl.lexemes_front (d : FuncDecl) :
    ∃ ls, d.lexemes = ⟨.typeName, d.typeName⟩ :: (d.declarator.lexemes ++ ⟨.lparen, "("⟩ :: ls) := by
  obtain ⟨typeName, d, params, body⟩ := d
  simp [lexemes, Lexeme.inParens]

/-- Behind the first name of a list of variables stands no parenthesis. -/
theorem VarDecl.lexemes_front {d : VarDecl} (wf : d.WellFormed) :
    ∃ (name : Declarator) (l : Lexeme) (ls : List Lexeme),
      d.lexemes = ⟨.typeName, d.typeName⟩ :: (name.lexemes ++ l :: ls) ∧ l.kind ≠ .lparen := by
  obtain ⟨typeName, bindings⟩ := d
  obtain ⟨-, nonempty, -⟩ := wf
  obtain ⟨⟨name, initial⟩, bs, rfl⟩ := List.exists_cons_of_ne_nil nonempty
  have behind : ∃ l ls, VarDecl.lexemes ⟨typeName, ⟨name, initial⟩ :: bs⟩ =
      ⟨.typeName, typeName⟩ :: (Binding.lexemes ⟨name, initial⟩ ++ l :: ls) ∧
        l.kind ≠ .lparen := by
    cases bs with
    | nil =>
        refine ⟨⟨.semicolon, ";"⟩, [], ?_, by simp⟩
        simp [lexemes, Lexeme.commaSeparated_singleton]
    | cons b bs =>
        refine ⟨Lexeme.comma, Lexeme.commaSeparated ((b :: bs).map Binding.lexemes) ++
          [⟨.semicolon, ";"⟩], ?_, by simp [Lexeme.comma]⟩
        simp [lexemes, Lexeme.commaSeparated_cons_cons]
  obtain ⟨l, ls, hl, different⟩ := behind
  cases initial with
  | none => exact ⟨name, l, ls, hl, different⟩
  | some e => exact ⟨name, ⟨.assign, "="⟩, e.lexemes ++ l :: ls, by simp [hl, Binding.lexemes], by simp⟩

theorem param_starts (p : Param) :
    ∃ l ls, p.lexemes = l :: ls ∧ l.kind ≠ .rparen :=
  ⟨⟨.typeName, p.typeName⟩, p.binding.lexemes, rfl, by simp⟩

namespace Nested

variable {inner : Nested Parser} {n : Nat}

/-- The parameters of a function, with the closing parenthesis. -/
theorem params_parses : (parenList Param.parse : Parser (List Param)).Parses Param.form.parenList n :=
  parenList_parses param_parses (fun _ => ⟨trivial, trivial⟩) fun p _ => param_starts p

section Function

variable (stmt : inner.stmt.Parses Stmt.form n)

include stmt

/-- What follows the head of a function: its block, or the semicolon of a prototype. -/
theorem funcTail_sound {typeName : String} {d : Declarator} {params : List Param}
    (wf : FuncDecl.WellFormed ⟨typeName, d, params, none⟩) {ts m : List Token}
    (head : Reads (FuncDecl.headLexemes ⟨typeName, d, params, none⟩) ts m) (lexm : Lexical m) :
    (do
      if ← eat .lbrace then return ⟨typeName, d, params, some (← inner.blockBody)⟩
      skip .semicolon
      return ⟨typeName, d, params, none⟩ : Parser FuncDecl).Leads m
        (fun d r => FuncDecl.form.Read n d ts r) (FuncDecl.form.Begun ts) := by
  refine leads_eat_mark (l := ⟨.lbrace, "\x7b"⟩) (by decide) lexm (fun m' opened lexm' => ?_)
    (fun _ => ?_)
  · refine (blockBody_parses stmt).leads_bind lexm' (fun body r read _ => ?_)
      (fun body r bwf begins => ?_)
    · refine ⟨?_, FuncDecl.wellFormed_definition.2 ⟨wf, read.wellFormed⟩,
        FuncDecl.levels_definition_le.2 read.levels_le, trivial⟩
      show Reads (FuncDecl.lexemes ⟨typeName, d, params, some body⟩) ts r
      rw [FuncDecl.lexemes_definition]
      exact head.append (opened.cons read.reads)
    · refine ⟨⟨typeName, d, params, some body⟩, FuncDecl.wellFormed_definition.2 ⟨wf, bwf⟩, ?_⟩
      show Begins (FuncDecl.lexemes ⟨typeName, d, params, some body⟩) ts r
      rw [FuncDecl.lexemes_definition]
      exact head.append_begins (opened.append_begins begins)
  · refine leads_skip_mark semicolon_isMark lexm (fun r mark _ => ?_) ?_
    · refine ⟨?_, wf, Nat.zero_le n, trivial⟩
      show Reads (FuncDecl.lexemes ⟨typeName, d, params, none⟩) ts r
      rw [FuncDecl.lexemes_prototype]
      exact head.append mark
    · apply Form.begun_of_reads wf head
      show _ <+: FuncDecl.lexemes ⟨typeName, d, params, none⟩
      rw [FuncDecl.lexemes_prototype]
      exact List.prefix_append _ _

theorem funcDecl_sound (ts : List Token) (lex : Lexical ts) :
    inner.funcDecl.Leads ts (fun d r => FuncDecl.form.Read n d ts r) (FuncDecl.form.Begun ts) := by
  -- what is begun is completed to a prototype
  have whole (typeName : String) (d : Declarator) (params : List Param)
      (twf : TokenKind.SpellsText .typeName typeName) (dwf : d.WellFormed)
      (pwf : ∀ p ∈ params, p.WellFormed) : FuncDecl.WellFormed ⟨typeName, d, params, none⟩ :=
    ⟨twf, dwf, pwf, fun body h => by simp at h⟩
  refine leads_expect_text (by decide) lex (fun typeName m tread twf lexm => ?_) ?_
  · refine declarator_parses.leads_bind (n := n) lexm (fun d m₁ dread lexm₁ => ?_)
      (fun d r dwf begins => ?_)
    · have dwf := dread.wellFormed
      refine leads_skip_mark (l := ⟨.lparen, "("⟩) (by decide) lexm₁ (fun m₂ mark lexm₂ => ?_) ?_
      · refine params_parses.leads_bind (n := n) lexm₂ (fun params m₃ pread lexm₃ => ?_)
          (fun params r pwf begins => ?_)
        · exact funcTail_sound stmt (whole typeName d params twf dwf pread.wellFormed)
            (tread.append (dread.reads.append (mark.cons pread.reads))) lexm₃
        · refine ⟨⟨typeName, d, params, none⟩, whole typeName d params twf dwf pwf, ?_⟩
          show Begins (FuncDecl.lexemes ⟨typeName, d, params, none⟩) ts r
          rw [FuncDecl.lexemes_prototype]
          exact (tread.append_begins (dread.reads.append_begins (mark.append_begins begins))).mono
            (List.prefix_append _ _)
      · refine Form.begun_of_reads (whole typeName d [] twf dwf (by simp))
          (tread.append dread.reads) ?_
        simp [FuncDecl.form, FuncDecl.lexemes, Declarator.form]
    · apply Form.begun_of_prefix (whole typeName d [] twf dwf (by simp)) tread begins
      simp [FuncDecl.form, FuncDecl.lexemes, Declarator.form]
  · exact ⟨_, whole "int" (.plain "x") [] spells_int Expr.spells_x (by simp), .start⟩

theorem funcDecl_parses : inner.funcDecl.Parses FuncDecl.form n where
  sound := funcDecl_sound stmt
  complete d ts rest read := by
    obtain ⟨typeName, d, params, body⟩ := d
    obtain ⟨reads, ⟨twf, dwf, pwf, bwf⟩, hlevels, -⟩ := read
    -- with and without a block, the head is followed by something that is read
    have parts : ∃ behind, Reads (FuncDecl.headLexemes ⟨typeName, d, params, none⟩) ts behind ∧
        (do
          if ← eat .lbrace then return ⟨typeName, d, params, some (← inner.blockBody)⟩
          skip .semicolon
          return ⟨typeName, d, params, none⟩ : Parser FuncDecl).Yields behind
            ⟨typeName, d, params, body⟩ rest := by
      replace reads : Reads (FuncDecl.lexemes ⟨typeName, d, params, body⟩) ts rest := reads
      cases body with
      | none =>
          rw [FuncDecl.lexemes_prototype] at reads
          obtain ⟨behind, head, mark⟩ := reads_append.1 reads
          have different : headKind behind ≠ .lbrace := by
            rw [mark.headKind_eq]
            decide
          exact ⟨behind, head, (yields_eat_false different).bind
            ((yields_skip mark).bind yields_pure)⟩
      | some body =>
          rw [FuncDecl.lexemes_definition] at reads
          obtain ⟨behind, head, block⟩ := reads_append.1 reads
          obtain ⟨m, opened, statements⟩ := reads_cons.1 block
          have levels := FuncDecl.levels_definition_le.1 hlevels
          have wf : Stmt.blockForm.WellFormed body := Stmt.allWellFormed_iff.1 (bwf body rfl)
          exact ⟨behind, head, (yields_eat_true opened).bind (((blockBody_parses stmt).complete body
            m rest ⟨statements, wf, levels, trivial⟩).bind yields_pure)⟩
    obtain ⟨behind, head, tail⟩ := parts
    obtain ⟨m, tread, head⟩ := reads_cons.1 head
    obtain ⟨m₁, dread, head⟩ := reads_append.1 head
    obtain ⟨m₂, mark, pread⟩ := reads_cons.1 head
    apply (yields_expect tread).bind
    refine (declarator_parses.complete d m m₁ ⟨dread, dwf, Nat.zero_le n, trivial⟩).bind ?_
    apply (yields_skip mark).bind
    have plevels : Param.form.parenList.levels params ≤ n :=
      Form.largest_le_of_levels fun _ _ => Nat.zero_le n
    exact (params_parses.complete params m₂ behind ⟨pread, pwf, plevels, trivial⟩).bind tail

end Function

/-! ## Functions and variables -/

variable (operand : ∀ least, (inner.operand least).Parses (Expr.operandForm least) n)
  (stmt : inner.stmt.Parses Stmt.form n)

include operand stmt

theorem declaration_sound (ts : List Token) (lex : Lexical ts) :
    inner.declaration.Leads ts (fun d r => Decl.form.Read n d ts r) (Decl.form.Begun ts) := by
  unfold declaration
  rw [leads_bind, leads_noteDeclaration, leads_bind, leads_lookingAt, leads_bind, leads_lookingAt]
  split
  -- a function
  · refine (funcDecl_parses stmt).leads_bind lex (fun d r read _ => ?_) (fun d r wf begins => ?_)
    · exact ⟨read.reads, read.wellFormed, read.levels_le, trivial⟩
    · exact ⟨.func d, wf, begins⟩
  rw [leads_bind, leads_lookingAt, leads_bind, leads_lookingAt]
  split
  -- variables
  · refine (varDecl_parses operand).leads_bind lex (fun d r read _ => ?_) (fun d r wf begins => ?_)
    · exact ⟨read.reads, read.wellFormed, read.levels_le, trivial⟩
    · exact ⟨.var d, wf, begins⟩
  -- neither, and nothing has been read
  · refine ⟨.func ⟨"int", .plain "x", [], none⟩, ⟨spells_int, Expr.spells_x, ?_, ?_⟩, .start⟩
    · intro p hp
      simp at hp
    · intro body hbody
      simp at hbody

theorem declaration_parses : inner.declaration.Parses Decl.form n where
  sound := declaration_sound operand stmt
  complete d ts rest read := by
    obtain ⟨reads, wf, hlevels, -⟩ := read
    unfold declaration
    have noted : (TokenReader.noteDeclaration : Parser Unit).Yields ts () ts := ⟨rfl, rfl⟩
    refine noted.bind (yields_lookingAt.bind (yields_lookingAt.bind ?_))
    cases d with
    | func d =>
        have run := (funcDecl_parses stmt).complete d ts rest ⟨reads, wf, hlevels, trivial⟩
        obtain ⟨ls, hls⟩ := d.lexemes_front
        -- the lookahead sees the parenthesis behind the name
        have kinds := Reads.kinds_eq reads
        rw [show Decl.form.lexemes (.func d) = _ from hls] at kinds
        simp only [List.map_cons, List.map_append, List.cons_append, List.append_assoc] at kinds
        rw [kinds, lookahead_function]
        exact run.bind yields_pure
    | var d =>
        have run := (varDecl_parses operand).complete d ts rest ⟨reads, wf, hlevels, trivial⟩
        obtain ⟨name, l, ls, hls, different⟩ := VarDecl.lexemes_front wf
        -- the lookahead sees a token behind the name that is no parenthesis
        have kinds := Reads.kinds_eq reads
        rw [show Decl.form.lexemes (.var d) = _ from hls] at kinds
        simp only [List.map_cons, List.map_append, List.cons_append, List.append_assoc] at kinds
        rw [kinds, lookahead_function, beq_false_of_ne different]
        refine yields_lookingAt.bind (yields_lookingAt.bind ?_)
        rw [kinds, lookahead_variable]
        exact run.bind yields_pure
    | param p => exact absurd wf (by simp [Decl.form, Decl.WellFormed])

/-! ## Programs -/

omit operand stmt in
theorem endOfInput_ends :
    Ends (do return (← TokenReader.kindAhead) == .endOfInput) .endOfInput [] (· = .endOfInput) where
  leads ts _ := by
    rw [leads_bind, leads_kindAhead, leads_pure]
    cases hkind : headKind ts == .endOfInput with
    | true => exact ⟨reads_nil.2 rfl, eq_of_beq hkind⟩
    | false => rfl
  finished ts rest reads last := by
    obtain rfl : ts = rest := reads_nil.1 reads
    refine ⟨last, yields_kindAhead.bind ?_⟩
    rw [last]
    exact yields_pure
  goesOn ts h := by
    apply yields_kindAhead.bind
    rw [beq_false_of_ne h]
    exact yields_pure

theorem decls_parses : (listUntil (do return (← TokenReader.kindAhead) == .endOfInput)
    inner.declaration).Parses (Decl.form.many [] (· = .endOfInput)) n := by
  refine listUntil_parses endOfInput_ends (declaration_parses operand stmt) (fun _ => trivial)
    fun d wf => ?_
  cases d with
  | func d =>
      obtain ⟨ls, hls⟩ := d.lexemes_front
      exact ⟨_, _, hls, by simp, fun _ => trivial⟩
  | var d =>
      obtain ⟨name, l, ls, hls, -⟩ := VarDecl.lexemes_front wf
      exact ⟨_, _, hls, by simp, fun _ => trivial⟩
  | param p => exact absurd wf (by simp [Decl.form, Decl.WellFormed])

/-- A whole program is read exactly. -/
theorem program_parses : inner.program.Parses Program.form n where
  sound ts lex := by
    refine (decls_parses operand stmt).leads_bind lex (fun decls r read _ => ?_)
      (fun decls r wf begins => ?_)
    · refine ⟨?_, read.wellFormed, read.levels_le, read.mayPrecede⟩
      rw [Program.lexemes_eq_many]
      exact read.reads
    · refine ⟨⟨decls⟩, wf, ?_⟩
      rw [Program.lexemes_eq_many]
      exact begins
  complete p ts rest read := by
    refine ((decls_parses operand stmt).complete p.decls ts rest
      ⟨?_, read.wellFormed, read.levels_le, read.mayPrecede⟩).bind yields_pure
    rw [← Program.lexemes_eq_many]
    exact read.reads

end Nested

end ProcLang
