import ProcLang.Proofs.Parse.Declarations
import ProcLang.Proofs.Tree.Printable

/-!
# The parser accepts exactly the well-formed programs

The tokens of a source are lexemes of their kinds, and so are the lexemes of a
well-formed program. A stream is read as a program exactly if the program is well
formed, opens no more levels than the limit allows, and has the tokens ahead as its
lexemes (`readProgramWithin_eq_ok`). No text has two readings, and whether one is found
depends on nothing but the lexemes.
-/

set_option autoImplicit false

namespace ProcLang

/-! ## Well-formed trees are printable -/

namespace Expr

/-- An operand of a prefix operator that begins with another is one itself. -/
theorem WellFormed.apart {arg : Expr} (h : arg.WellFormed) (notBinary : arg.isBinary = false) :
    arg.isPrefixed = true ∨ arg.startsPrefixed = false := by
  obtain ⟨l, ls, hl, -, hprimary⟩ := h.lexemes_starts
  have primary (base : arg.isPostfixBase = true) : arg.startsPrefixed = false := by
    rw [startsPrefixed, hl]
    cases hopens : l.kind.isPrefixOperator with
    | false => simp [hopens]
    | true =>
        have := TokenKind.not_startsPrimary_of_isPrefixOperator hopens
        rw [hprimary base] at this
        exact absurd this (by simp)
  cases arg with
  | binary => exact absurd notBinary (by simp [isBinary])
  | prefixOp => exact .inl rfl
  | _ => exact .inr (primary rfl)

mutual

theorem WellFormed.printable : (e : Expr) → e.WellFormed → e.Printable
  | literal kind text, h => by
      simp only [WellFormed] at h
      simpa only [Printable] using h
  | ident name, h => by
      simp only [WellFormed] at h
      simpa only [Printable] using h
  | paren inner, h => by
      simp only [WellFormed] at h
      simpa only [Printable] using WellFormed.printable inner h
  | binary op lhs rhs, h => by
      simp only [WellFormed] at h
      obtain ⟨⟨strength, hop, -⟩, hl, hr⟩ := h
      simp only [Printable]
      exact ⟨by rw [hop]; rfl, WellFormed.printable lhs hl, WellFormed.printable rhs hr⟩
  | prefixOp op arg, h => by
      simp only [WellFormed] at h
      simp only [Printable]
      exact ⟨h.1, h.2.2.apart h.2.1, WellFormed.printable arg h.2.2⟩
  | postIncrement base, h => by
      simp only [WellFormed] at h
      simpa only [Printable] using WellFormed.printable base h.2
  | postDecrement base, h => by
      simp only [WellFormed] at h
      simpa only [Printable] using WellFormed.printable base h.2
  | call callee args, h => by
      simp only [WellFormed] at h
      simp only [Printable]
      exact ⟨WellFormed.printable callee h.2.1, AllWellFormed.printable args h.2.2⟩
  | subscript base index, h => by
      simp only [WellFormed] at h
      simp only [Printable]
      exact ⟨WellFormed.printable base h.2.1, WellFormed.printable index h.2.2⟩

theorem AllWellFormed.printable : (es : List Expr) → AllWellFormed es → AllPrintable es
  | [], _ => by simp only [AllPrintable]
  | e :: es, h => by
      simp only [AllWellFormed] at h
      simp only [AllPrintable]
      exact ⟨WellFormed.printable e h.1, AllWellFormed.printable es h.2⟩

end

end Expr

theorem Binding.WellFormed.printable {b : Binding} (h : b.WellFormed) : b.Printable :=
  ⟨h.1, fun e he => (h.2 e he).printable⟩

theorem VarDecl.WellFormed.printable {d : VarDecl} (h : d.WellFormed) : d.Printable :=
  ⟨h.1, fun b hb => (h.2.2 b hb).printable⟩

theorem Param.WellFormed.printable {p : Param} (h : p.WellFormed) : p.Printable :=
  ⟨h.1, h.2.1, fun e he => by simp [h.2.2] at he⟩

mutual

theorem Stmt.WellFormed.printable : (s : Stmt) → s.WellFormed → s.Printable
  | .block body, h => by
      simp only [Stmt.WellFormed] at h
      simpa only [Stmt.Printable] using Stmt.AllWellFormed.printable body h
  | .conditional test body rest, h => by
      simp only [Stmt.WellFormed] at h
      simp only [Stmt.Printable]
      exact ⟨h.1.printable, Stmt.WellFormed.printable body h.2.1,
        Alternatives.WellFormed.printable rest h.2.2.2⟩
  | .whileLoop test body, h => by
      simp only [Stmt.WellFormed] at h
      simp only [Stmt.Printable]
      exact ⟨h.1.printable, Stmt.WellFormed.printable body h.2⟩
  | .repeatLoop body, h => by
      simp only [Stmt.WellFormed] at h
      simpa only [Stmt.Printable] using Stmt.WellFormed.printable body h
  | .forLoop, h => by
      simp only [Stmt.WellFormed] at h
  | .breakOut, _ => by simp only [Stmt.Printable]
  | .continueOn, _ => by simp only [Stmt.Printable]
  | .returnValue value, h => by
      simp only [Stmt.WellFormed] at h
      simpa only [Stmt.Printable] using h.printable
  | .declare decl, h => by
      simp only [Stmt.WellFormed] at h
      simpa only [Stmt.Printable] using h.printable
  | .evaluate value, h => by
      simp only [Stmt.WellFormed] at h
      simpa only [Stmt.Printable] using h.printable

theorem Alternatives.WellFormed.printable : (a : Alternatives) → a.WellFormed → a.Printable
  | .nothing, _ => by simp only [Alternatives.Printable]
  | .otherwise body, h => by
      simp only [Alternatives.WellFormed] at h
      simpa only [Alternatives.Printable] using Stmt.WellFormed.printable body h
  | .elseIf test body rest, h => by
      simp only [Alternatives.WellFormed] at h
      simp only [Alternatives.Printable]
      exact ⟨h.1.printable, Stmt.WellFormed.printable body h.2.1,
        Alternatives.WellFormed.printable rest h.2.2.2⟩

theorem Stmt.AllWellFormed.printable : (ss : List Stmt) → Stmt.AllWellFormed ss →
    Stmt.AllPrintable ss
  | [], _ => by simp only [Stmt.AllPrintable]
  | s :: ss, h => by
      simp only [Stmt.AllWellFormed] at h
      simp only [Stmt.AllPrintable]
      exact ⟨Stmt.WellFormed.printable s h.1, Stmt.AllWellFormed.printable ss h.2⟩

end

theorem Program.WellFormed.printable {p : Program} (h : p.WellFormed) : p.Printable := by
  intro d hd
  have wf := h d hd
  cases d with
  | func d =>
      obtain ⟨htype, hname, hparams, hbody⟩ := wf
      exact ⟨htype, hname, fun p hp => (hparams p hp).printable, fun body hb =>
        Stmt.AllWellFormed.printable body (hbody body hb)⟩
  | var d => exact VarDecl.WellFormed.printable wf
  | param p => exact absurd wf (by simp [Decl.WellFormed])

/-- The lexemes of a well-formed program are lexemes of their kinds. -/
theorem Program.WellFormed.spells {p : Program} (h : p.WellFormed) :
    ∀ l ∈ p.lexemes, l.kind.SpellsText l.text :=
  (Program.layout_holds h.printable).spells

/-! ## Acceptance -/

/-- Tokens whose lexemes are spelled are lexemes of their kinds. -/
theorem lexical_of_toLexeme {ts : List Token} {ls : List Lexeme}
    (h : ts.map Token.toLexeme = ls) (spells : ∀ l ∈ ls, l.kind.SpellsText l.text) :
    Lexical ts := by
  subst h
  exact fun t ht => spells _ (List.mem_map_of_mem ht)

/-- Where no token is ahead that is a lexeme, no token is ahead. -/
theorem eq_nil_of_headKind {ts : List Token} (lex : Lexical ts)
    (h : headKind ts = .endOfInput) : ts = [] := by
  cases ts with
  | nil => rfl
  | cons t ts =>
      exact absurd h (lex.proper t List.mem_cons_self)

/-- The parsers of programs read exactly the well-formed programs. -/
theorem nestedParsers_program (limit : Nat) :
    (nestedParsers limit).program.Parses Program.form limit :=
  Nested.program_parses (nestedParsers_parses limit).operand (nestedParsers_parses limit).stmt

/-- A stream of lexemes is read as a program exactly if the program is well formed, opens
no more levels than the limit, and has the tokens ahead as its lexemes. -/
theorem readProgramWithin_eq_ok (limit : Nat) (stream : TokenStream) (u : Program) :
    ((stream.readProgramWithin limit).result = .ok u ∧ Lexical stream.ahead) ↔
      u.WellFormed ∧ u.levels ≤ limit ∧ stream.ahead.map Token.toLexeme = u.lexemes := by
  rw [TokenStream.readProgramWithin, Parser.read_result_eq_ok]
  constructor
  · rintro ⟨accepted, lex⟩
    have sound := (nestedParsers_program limit).sound stream.ahead lex
    rw [Parser.Leads, accepted] at sound
    obtain ⟨reads, wf, levels, ends⟩ := sound
    have finished := eq_nil_of_headKind (lex.of_reads reads) ends
    obtain ⟨front, hfront, lexemes⟩ := reads
    rw [finished, List.append_nil] at hfront
    exact ⟨wf, levels, hfront ▸ lexemes⟩
  · rintro ⟨wf, levels, lexemes⟩
    have reads : Reads u.lexemes stream.ahead [] := ⟨stream.ahead, by simp, lexemes⟩
    have accepted := (nestedParsers_program limit).complete u stream.ahead []
      ⟨reads, wf, levels, rfl⟩
    exact ⟨accepted.1, lexical_of_toLexeme lexemes wf.spells⟩

/-- A source is read as a program exactly if its lexemes are those of the program. -/
theorem parseSource_eq_ok (source : String) (u : Program) :
    parseSource source = .ok u ↔
      u.WellFormed ∧ u.levels ≤ nestingLimit ∧ scan source.toList = some u.lexemes := by
  have accepted := readProgramWithin_eq_ok nestingLimit
  constructor
  · intro h
    cases htokens : tokenize source with
    | error e =>
        rw [parseSource, htokens] at h
        cases h
    | ok tokens =>
        obtain ⟨front, n, rfl, lex, hscan⟩ := tokenize_eq_ok htokens
        rw [parseSource, htokens] at h
        replace h : (TokenStream.ofTokens (front ++ [Token.endAt n])).readProgram.result = .ok u := h
        rw [ofTokens_append_endAt lex] at h
        obtain ⟨wf, levels, lexemes⟩ := (accepted ⟨front, Token.endAt n⟩ u).1 ⟨h, lex⟩
        exact ⟨wf, levels, lexemes ▸ hscan⟩
  · rintro ⟨wf, levels, hscan⟩
    obtain ⟨front, n, htokens, lex, lexemes⟩ := tokenize_of_scan hscan
    rw [parseSource, htokens]
    show (TokenStream.ofTokens (front ++ [Token.endAt n])).readProgram.result = .ok u
    rw [ofTokens_append_endAt lex]
    exact ((accepted ⟨front, Token.endAt n⟩ u).2 ⟨wf, levels, lexemes⟩).1

/-- The lexemes of the tokens of a source are those that are scanned, and the end. -/
theorem tokenize_lexemes_eq_ok {source : String} {ls : List Lexeme} :
    (tokenize source).map (List.map Token.toLexeme) = .ok (ls ++ [⟨.endOfInput, ""⟩]) ↔
      scan source.toList = some ls := by
  constructor
  · intro h
    cases htokens : tokenize source with
    | error e =>
        rw [htokens] at h
        cases h
    | ok tokens =>
        obtain ⟨front, n, rfl, -, hscan⟩ := tokenize_eq_ok htokens
        rw [htokens] at h
        have hls := Except.ok.inj h
        rw [List.map_append] at hls
        rw [hscan, (List.append_inj' hls rfl).1]
  · intro h
    obtain ⟨front, n, htokens, -, rfl⟩ := tokenize_of_scan h
    rw [htokens]
    simp [Except.map, Token.endAt]

/-- The parser accepts exactly its grammar. A stream of tokens that are lexemes of their
kinds is read as the program `u` if and only if `u` is well formed, opens at most
`nestingLimit` levels, and has the lexemes of the tokens ahead as its own; and a source
is read as `u` if and only if its tokens are such a stream. -/
theorem readProgram_accepts_iff :
    (∀ (stream : TokenStream) (u : Program),
      (stream.readProgram.result = .ok u ∧ Lexical stream.ahead) ↔
        u.WellFormed ∧ u.levels ≤ nestingLimit ∧
          stream.ahead.map Token.toLexeme = u.lexemes) ∧
    ∀ (source : String) (u : Program),
      parseSource source = .ok u ↔
        u.WellFormed ∧ u.levels ≤ nestingLimit ∧
          (tokenize source).map (List.map Token.toLexeme) =
            .ok (u.lexemes ++ [⟨.endOfInput, ""⟩]) := by
  refine ⟨readProgramWithin_eq_ok nestingLimit, fun source u => ?_⟩
  rw [parseSource_eq_ok, tokenize_lexemes_eq_ok]

end ProcLang
