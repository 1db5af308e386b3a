import ProcLang.Proofs.Tree.Spacing

/-!
# Printed trees are read token by token

A tree is printable if its texts are lexemes of the kinds their places need and no
operator is printed directly before another. The shape of the tree is otherwise free:
operators may be grouped in any way, and every declaration may stand everywhere. The
layout of a printable tree carries exactly the lexemes of the tree.
-/

set_option autoImplicit false

namespace ProcLang

open Fragment

/-! ## Printable trees -/

namespace Expr

/-- Whether the first token of an expression is a prefix operator. -/
def startsPrefixed (e : Expr) : Bool :=
  e.lexemes.head?.any (·.kind.isPrefixOperator)

mutual

/-- Printable expressions. A prefix operator is kept apart from an operand that is one
itself, and only from such. -/
def Printable : Expr → Prop
  | literal kind text => kind.tokenKind.SpellsText text
  | ident name => TokenKind.SpellsText .ident name
  | paren inner => Printable inner
  | binary op lhs rhs => (binaryStrength? op).isSome = true ∧ Printable lhs ∧ Printable rhs
  | prefixOp op arg =>
      IsPrefixSpelling op ∧ (arg.isPrefixed = true ∨ arg.startsPrefixed = false) ∧ Printable arg
  | postIncrement base => Printable base
  | postDecrement base => Printable base
  | call callee args => Printable callee ∧ AllPrintable args
  | subscript base index => Printable base ∧ Printable index

/-- Lists of printable expressions. -/
def AllPrintable : List Expr → Prop
  | [] => True
  | e :: es => Printable e ∧ AllPrintable es

end

end Expr

/-- Names with printable initial values. -/
def Binding.Printable (b : Binding) : Prop :=
  b.declarator.WellFormed ∧ ∀ e ∈ b.initial, e.Printable

/-- Printable lists of variables; they may be empty. -/
def VarDecl.Printable (d : VarDecl) : Prop :=
  TokenKind.SpellsText .typeName d.typeName ∧ ∀ b ∈ d.bindings, b.Printable

/-- Printable parameters; they may have an initial value. -/
def Param.Printable (p : Param) : Prop :=
  TokenKind.SpellsText .typeName p.typeName ∧ p.binding.Printable

mutual

/-- Printable statements. -/
def Stmt.Printable : Stmt → Prop
  | .block body => Stmt.AllPrintable body
  | .conditional test body rest =>
      test.Printable ∧ Stmt.Printable body ∧ Alternatives.Printable rest
  | .whileLoop test body => test.Printable ∧ Stmt.Printable body
  | .repeatLoop body => Stmt.Printable body
  | .forLoop => True
  | .breakOut => True
  | .continueOn => True
  | .returnValue value => value.Printable
  | .declare decl => decl.Printable
  | .evaluate value => value.Printable

/-- Printable alternatives. -/
def Alternatives.Printable : Alternatives → Prop
  | .nothing => True
  | .otherwise body => Stmt.Printable body
  | .elseIf test body rest =>
      test.Printable ∧ Stmt.Printable body ∧ Alternatives.Printable rest

/-- Lists of printable statements. -/
def Stmt.AllPrintable : List Stmt → Prop
  | [] => True
  | s :: ss => Stmt.Printable s ∧ Stmt.AllPrintable ss

end

/-- Printable functions. -/
def FuncDecl.Printable (d : FuncDecl) : Prop :=
  TokenKind.SpellsText .typeName d.typeName ∧ d.declarator.WellFormed ∧
    (∀ p ∈ d.params, p.Printable) ∧ ∀ body ∈ d.body, Stmt.AllPrintable body

/-- Printable declarations. -/
def Decl.Printable : Decl → Prop
  | .func d => d.Printable
  | .var d => d.Printable
  | .param p => p.Printable

/-- Printable programs. -/
def Program.Printable (p : Program) : Prop :=
  ∀ d ∈ p.decls, d.Printable

/-! ## The texts of tokens -/

/-- A listed text spells its kind. -/
theorem spells_mark {kind : TokenKind} {text : String}
    (listed : (text, kind) ∈ operators ++ reservedWords := by decide) : kind.SpellsText text := by
  apply spells_of_listed
  rw [String.ofList_toList]
  exact listed

/-- An operator text spells its kind. -/
theorem spells_operator {op : String} (h : operatorKind op ≠ .endOfInput) :
    (Lexeme.operator op).kind.SpellsText (Lexeme.operator op).text := by
  unfold operatorKind at h
  show (operatorKind op).SpellsText op
  unfold operatorKind
  cases hlookup : operators.lookup op with
  | none => exact absurd (by rw [hlookup]; rfl) h
  | some kind => exact spells_mark (List.mem_append_left _ (mem_of_lookup hlookup))

theorem spells_binary {op : String} (h : (binaryStrength? op).isSome = true) :
    (Lexeme.operator op).kind.SpellsText (Lexeme.operator op).text := by
  apply spells_operator
  intro hend
  rw [binaryStrength?, hend] at h
  exact absurd h (by decide)

theorem spells_prefixOp {op : String} (h : IsPrefixSpelling op) :
    (Lexeme.operator op).kind.SpellsText (Lexeme.operator op).text := by
  apply spells_operator
  intro hend
  rw [IsPrefixSpelling, hend] at h
  exact absurd h (by decide)

/-- Literals and words begin with a digit, a letter, an underscore or a quote. -/
theorem first_of_spells {kind : TokenKind} {cs : List Char} (spells : kind.Spells cs)
    (proper : ∀ op ∈ operators, op.2 ≠ kind) :
    ∃ c cs', cs = c :: cs' ∧
      (c.isDigit = true ∨ isWordStart c = true ∨ c = '"' ∨ c = '\'') := by
  cases hlisted : kind.isListed with
  | true =>
      rw [spells_of_isListed hlisted, List.mem_append] at spells
      rcases spells with listed | listed
      · exact absurd rfl (proper _ listed)
      · obtain ⟨-, start, -⟩ := reservedWords_word _ listed
        rw [String.toList_ofList] at start
        cases cs with
        | nil => exact absurd start (by simp)
        | cons c cs => exact ⟨c, cs, rfl, .inr (.inl start)⟩
  | false =>
      cases kind with
      | intLit =>
          obtain ⟨c, cs, rfl⟩ := List.exists_cons_of_ne_nil spells.1
          exact ⟨c, cs, rfl, .inl (spells.2 c (List.mem_cons_self ..))⟩
      | floatLit =>
          obtain ⟨whole, fraction, digits, -, rfl⟩ := spells
          obtain ⟨c, cs, rfl⟩ := List.exists_cons_of_ne_nil digits.1
          exact ⟨c, _, rfl, .inl (digits.2 c (List.mem_cons_self ..))⟩
      | charLit =>
          obtain ⟨unit, -, rfl⟩ := spells
          exact ⟨_, _, rfl, .inr (.inr (.inr rfl))⟩
      | stringLit =>
          obtain ⟨units, -, rfl⟩ := spells
          exact ⟨_, _, rfl, .inr (.inr (.inl rfl))⟩
      | ident =>
          cases cs with
          | nil => exact absurd spells.1 (by simp [IsWord])
          | cons c cs => exact ⟨c, cs, rfl, .inr (.inl spells.1.1)⟩
      | _ => exact absurd hlisted (by decide)

/-- The texts of literals and words are solid or begin with a digit or a letter. -/
theorem plain_of_spells {kind : TokenKind} {cs : List Char} (spells : kind.Spells cs)
    (proper : ∀ op ∈ operators, op.2 ≠ kind) :
    IsSolid cs ∨ cs.head?.any (fun c => c.isDigit || isWordStart c) = true := by
  obtain ⟨c, cs, rfl, digit | start | quote⟩ := first_of_spells spells proper
  · exact .inr (by simp [digit])
  · exact .inr (by simp [start])
  · exact .inl (isSolid_of_quote quote cs)

/-- Marks that begin no longer one. -/
def Lexeme.IsSolidMark (l : Lexeme) : Prop :=
  (l.text, l.kind) ∈ operators ∧ ∀ longer ∈ "//" :: operators.map Prod.fst,
    l.text.toList.isPrefixOf longer.toList = true → longer.toList.length ≤ l.text.toList.length

instance (l : Lexeme) : Decidable l.IsSolidMark :=
  inferInstanceAs (Decidable (_ ∧ _))

theorem Lexeme.IsSolidMark.isSolid {l : Lexeme} (h : l.IsSolidMark) : IsSolid l.text.toList := by
  obtain ⟨listed, longest⟩ := h
  obtain ⟨c, cs, hc⟩ := List.exists_cons_of_ne_nil (operators_ne_nil _ listed)
  replace hc : l.text.toList = c :: cs := hc
  obtain ⟨-, notDigit, notWord, -⟩ := operators_first _ listed c (by rw [hc]; rfl)
  exact ⟨c, by rw [hc]; rfl, notDigit, notWord, longest⟩

theorem operators_stop : ∀ op ∈ operators,
    op.1.toList.head?.all (fun d => !isWordChar d && d != '.') = true := by
  decide

namespace Fragment

variable {kind : TokenKind} {text : String} {gs gs' : List Fragment} {ks ks' : List Lexeme}

/-- Literals and words stand apart from what stops a word. -/
theorem carries_plain (spells : kind.SpellsText text) (proper : ∀ op ∈ operators, op.2 ≠ kind) :
    Carries [.word text] [⟨kind, text⟩] := by
  have plain := plain_of_spells spells proper
  exact @carries_word ⟨kind, text⟩ spells plain

/-- A mark may stand before anything. -/
theorem Carries.mark (h : Carries gs ks)
    (solid : (⟨kind, text⟩ : Lexeme).IsSolidMark := by decide) :
    Carries (.word text :: gs) (⟨kind, text⟩ :: ks) := by
  have spells : kind.SpellsText text := spells_mark (List.mem_append_left _ solid.1)
  exact @Carries.solid _ _ ⟨kind, text⟩ spells solid.isSolid h

/-- A mark may stand behind anything. -/
theorem Carries.appendMark (h : Carries gs ks) (h' : Carries gs' ks')
    (solid : (⟨kind, text⟩ : Lexeme).IsSolidMark := by decide) :
    Carries (gs ++ .word text :: gs') (ks ++ ⟨kind, text⟩ :: ks') :=
  h.append (h'.mark solid)
    (stopping_mark (operators_ne_nil _ solid.1) (operators_stop _ solid.1) gs')

theorem Carries.closed (h : Carries gs ks)
    (solid : (⟨kind, text⟩ : Lexeme).IsSolidMark := by decide) :
    Carries (gs ++ [.word text]) (ks ++ [⟨kind, text⟩]) :=
  h.appendMark carries_nil solid

/-- A word before a space. -/
theorem Carries.wordSpace (spells : kind.SpellsText text) (h : Carries gs ks) :
    Carries (.word text :: .space :: gs) (⟨kind, text⟩ :: ks) :=
  @Carries.spaced _ _ ⟨kind, text⟩ spells h

/-- Parts with commas between them. -/
theorem carries_commaSeparated {α : Type} {layout : α → List Fragment}
    {lexemes : α → List Lexeme} {as : List α}
    (h : ∀ a ∈ as, Carries (layout a) (lexemes a)) :
    Carries (commaSeparated (as.map layout)) (Lexeme.commaSeparated (as.map lexemes)) := by
  induction as with
  | nil => exact carries_nil
  | cons a as ih =>
      rw [List.forall_mem_cons] at h
      cases as with
      | nil => simpa [commaSeparated, Lexeme.commaSeparated, List.intercalate] using h.1
      | cons a' as =>
          have comma : (⟨.comma, ","⟩ : Lexeme).IsSolidMark := by decide
          have := h.1.appendMark (ih h.2).afterSpace comma
          simpa [commaSeparated, Lexeme.commaSeparated, List.intercalate, List.intersperse] using this

end Fragment

/-! ## Expressions -/

namespace Expr

/-- Characters that begin an operand which is no prefix operator. -/
def startsOperand (c : Char) : Bool :=
  c.isDigit || isWordStart c || c == '"' || c == '\'' || c == '('

theorem lexemes_ne_nil (e : Expr) : e.lexemes ≠ [] := by
  cases e <;> simp [lexemes, Lexeme.inParens]

/-- No operator is joined by the beginning of an operand. -/
theorem apart_operator {op : String} (spelled : operatorKind op ≠ .endOfInput)
    {rest : List Char} (starts : ∀ d ∈ rest.head?, startsOperand d = true) :
    Apart op.toList rest := by
  intro d hd
  have listed : (op, operatorKind op) ∈ operators := by
    unfold operatorKind at spelled ⊢
    cases hlookup : operators.lookup op with
    | none => exact absurd (by rw [hlookup]; rfl) spelled
    | some kind => exact mem_of_lookup hlookup
  obtain ⟨c, cs, hc⟩ := List.exists_cons_of_ne_nil (operators_ne_nil _ listed)
  obtain ⟨-, notDigit, notWord, -⟩ := operators_first _ listed c (by rw [hc]; rfl)
  replace hc : op.toList = c :: cs := hc
  rw [hc]
  cases hjoins : joins (c :: cs) d with
  | false => rfl
  | true =>
      obtain ⟨longer, known, hmem⟩ := mem_tail_of_joins notDigit notWord hjoins
      obtain ⟨-, h₁, h₂, h₃, h₄, h₅⟩ := tail_chars longer known d hmem
      have := starts d hd
      simp [startsOperand, h₁, h₂, h₃, h₄, h₅] at this

theorem startsPrefixed_append {e : Expr} {ls : List Lexeme} :
    (e.lexemes ++ ls).head?.any (·.kind.isPrefixOperator) = e.startsPrefixed := by
  obtain ⟨l, ls', hl⟩ := List.exists_cons_of_ne_nil e.lexemes_ne_nil
  rw [startsPrefixed, hl]
  rfl

theorem word_first {kind : TokenKind} {text : String} (spells : kind.SpellsText text)
    (proper : ∀ op ∈ operators, op.2 ≠ kind) (fs : List Fragment) :
    ∀ d ∈ (([Fragment.word text] ++ fs).flatMap chars).head?, startsOperand d = true := by
  intro d hd
  obtain ⟨c, cs, hc, first⟩ := first_of_spells spells proper
  replace hd : (text.toList ++ fs.flatMap chars).head? = some d := hd
  rw [hc] at hd
  obtain rfl : c = d := Option.some.inj hd
  rcases first with digit | start | rfl | rfl
  · simp [startsOperand, digit]
  · simp [startsOperand, start]
  · rfl
  · rfl

/-- The layout of an expression that begins with no prefix operator. -/
theorem layout_first : (e : Expr) → e.Printable → e.startsPrefixed = false →
    (fs : List Fragment) → ∀ d ∈ ((e.layout ++ fs).flatMap chars).head?, startsOperand d = true
  | literal kind text, h, _, fs => by
      simp only [Printable] at h
      exact word_first h (by cases kind <;> decide) fs
  | ident name, h, _, fs => by
      simp only [Printable] at h
      exact word_first h (by decide) fs
  | paren inner, _, _, fs => by
      intro d hd
      obtain rfl : '(' = d := by simpa [layout, chars] using hd
      rfl
  | binary op lhs rhs, h, hstart, fs => by
      simp only [Printable] at h
      rw [startsPrefixed, lexemes, startsPrefixed_append] at hstart
      rw [layout, List.append_assoc, List.append_assoc]
      exact layout_first lhs h.2.1 hstart _
  | prefixOp op arg, h, hstart, _ => by
      simp only [Printable] at h
      have : (operatorKind op).isPrefixOperator = false := hstart
      rw [IsPrefixSpelling, this] at h
      exact absurd h.1 (by simp)
  | postIncrement base, h, hstart, fs => by
      simp only [Printable] at h
      rw [startsPrefixed, lexemes, startsPrefixed_append] at hstart
      rw [layout, List.append_assoc]
      exact layout_first base h hstart _
  | postDecrement base, h, hstart, fs => by
      simp only [Printable] at h
      rw [startsPrefixed, lexemes, startsPrefixed_append] at hstart
      rw [layout, List.append_assoc]
      exact layout_first base h hstart _
  | call callee args, h, hstart, fs => by
      simp only [Printable] at h
      rw [startsPrefixed, lexemes, startsPrefixed_append] at hstart
      rw [layout, List.append_assoc, List.append_assoc]
      exact layout_first callee h.1 hstart _
  | subscript base index, h, hstart, fs => by
      simp only [Printable] at h
      rw [startsPrefixed, lexemes, List.append_assoc, startsPrefixed_append] at hstart
      rw [layout, List.append_assoc, List.append_assoc]
      exact layout_first base h.1 hstart _

mutual

/-- The layout of a printable expression carries its lexemes. -/
theorem layout_carries : (e : Expr) → e.Printable → Carries e.layout e.lexemes
  | literal kind text, h => by
      simp only [Printable] at h
      exact carries_plain h (by cases kind <;> decide)
  | ident name, h => by
      simp only [Printable] at h
      exact carries_plain h (by decide)
  | paren inner, h => by
      simp only [Printable] at h
      rw [layout, lexemes, Lexeme.inParens, List.cons_append, List.cons_append]
      exact ((layout_carries inner h).closed).mark
  | binary op lhs rhs, h => by
      simp only [Printable] at h
      rw [layout, lexemes, List.append_assoc]
      exact (layout_carries lhs h.2.1).append
        ((layout_carries rhs h.2.2).wordSpace (spells_binary h.1)).afterSpace (stopping_space _)
  | prefixOp op arg, h => by
      simp only [Printable] at h
      obtain ⟨hop, apart, harg⟩ := h
      have carried := layout_carries arg harg
      rw [layout, lexemes]
      cases hprefixed : arg.isPrefixed with
      | true => exact carried.wordSpace (spells_prefixOp hop)
      -- no space is printed, and the operand begins with nothing that joins the operator
      | false =>
          have hstart := apart.resolve_left (by rw [hprefixed]; simp)
          have proper : operatorKind op ≠ .endOfInput := by
            intro hend
            rw [IsPrefixSpelling, hend] at hop
            exact absurd hop (by decide)
          intro fs ls hold hs
          exact @Holds.word _ _ (Lexeme.operator op) (spells_operator proper)
            (apart_operator proper (layout_first arg harg hstart fs)) (carried fs ls hold hs)
  | postIncrement base, h => by
      simp only [Printable] at h
      rw [layout, lexemes]
      exact (layout_carries base h).closed
  | postDecrement base, h => by
      simp only [Printable] at h
      rw [layout, lexemes]
      exact (layout_carries base h).closed
  | call callee args, h => by
      simp only [Printable] at h
      rw [layout, lexemes, Lexeme.inParens, List.cons_append, List.append_assoc, List.cons_append,
        layoutEach_eq_map, lexemesEach_eq_map]
      exact (layout_carries callee h.1).appendMark
        ((carries_commaSeparated (layoutEach_carries args h.2)).closed)
  | subscript base index, h => by
      simp only [Printable] at h
      rw [layout, lexemes, List.append_assoc, List.append_assoc]
      exact (layout_carries base h.1).appendMark
        ((layout_carries index h.2).closed)

theorem layoutEach_carries : (es : List Expr) → AllPrintable es →
    ∀ e ∈ es, Carries e.layout e.lexemes
  | [], _ => by simp
  | e :: es, h => by
      simp only [AllPrintable] at h
      exact List.forall_mem_cons.2 ⟨layout_carries e h.1, layoutEach_carries es h.2⟩

end

end Expr

/-! ## Declared names -/

theorem Declarator.layout_carries {d : Declarator} (h : d.WellFormed) :
    Carries d.layout d.lexemes := by
  cases d with
  | plain name => exact carries_plain h (by decide)
  | pointer name =>
      have spells : TokenKind.SpellsText .ident name := h
      have carried := carries_plain spells (by decide)
      intro fs ls hold hs
      refine @Holds.word _ _ ⟨.star, "*"⟩ spells_mark ?_ (carried fs ls hold hs)
      exact Expr.apart_operator (by decide) (Expr.word_first spells (by decide) fs)

theorem Binding.layout_carries {b : Binding} (h : b.Printable) : Carries b.layout b.lexemes := by
  obtain ⟨d, initial⟩ := b
  obtain ⟨hd, he⟩ := h
  cases initial with
  | none => exact Declarator.layout_carries hd
  | some e =>
      have assign : TokenKind.SpellsText .assign "=" := spells_mark
      have carried := (Expr.layout_carries e (he e rfl)).wordSpace assign
      show Carries (d.layout ++ [space, word "=", space] ++ e.layout)
        (d.lexemes ++ ⟨.assign, "="⟩ :: e.lexemes)
      rw [List.append_assoc]
      exact (Declarator.layout_carries hd).append carried.afterSpace (stopping_space _)

theorem VarDecl.layout_carries {d : VarDecl} (h : d.Printable) : Carries d.layout d.lexemes := by
  rw [layout, lexemes, List.cons_append, List.cons_append, List.cons_append]
  exact ((carries_commaSeparated fun b hb =>
    Binding.layout_carries (h.2 b hb)).closed).wordSpace h.1

theorem Param.layout_carries {p : Param} (h : p.Printable) : Carries p.layout p.lexemes :=
  (Binding.layout_carries h.2).wordSpace h.1

/-! ## Statements -/

/-- A keyword with its condition and what the condition guards. -/
theorem guardLayout_carries {kind : TokenKind} {keyword : String} {test : Expr}
    {gs : List Fragment} {ks : List Lexeme} (spells : kind.SpellsText keyword)
    (htest : test.Printable) (h : Carries gs ks) :
    Carries (guardLayout keyword test ++ gs)
      (⟨kind, keyword⟩ :: (Lexeme.inParens test.lexemes ++ ks)) := by
  have close : (⟨.rparen, ")"⟩ : Lexeme).IsSolidMark := by decide
  have inside := (Expr.layout_carries test htest).appendMark h.afterSpace close
  have openMark : (⟨.lparen, "("⟩ : Lexeme).IsSolidMark := by decide
  have carried := (inside.mark openMark).wordSpace spells
  simpa [guardLayout, Lexeme.inParens] using carried

theorem eq_nil_of_carries {ks : List Lexeme} (h : Carries [] ks) : ks = [] := by
  have hold := h [] [] .nil stops_nil
  rw [List.append_nil, List.append_nil] at hold
  cases hold
  rfl

/-- Braces around lines. -/
theorem inBraces_carries (depth : Nat) {lines : List Fragment} {ks : List Lexeme}
    (h : Carries lines ks) : Carries (inBraces depth lines) (Lexeme.inBraces ks) := by
  have close : (⟨.rbrace, "\x7d"⟩ : Lexeme).IsSolidMark := by decide
  cases lines with
  | nil =>
      obtain rfl := eq_nil_of_carries h
      exact (carries_nil.closed close).mark
  | cons f fs =>
      rw [inBraces, Lexeme.inBraces, List.cons_append, List.cons_append]
      refine Carries.mark (h.append ?_ (stopping_newline _ _))
      exact (carries_nil.mark close).afterNewline depth

mutual

/-- The layout of a printable statement carries its lexemes. -/
theorem Stmt.layout_carries (depth : Nat) : (s : Stmt) → s.Printable →
    Carries (s.layout depth) s.lexemes
  | .block body, h => by
      simp only [Stmt.Printable] at h
      rw [Stmt.layout, Stmt.lexemes]
      exact inBraces_carries depth (Stmt.layoutLines_carries (depth + 1) body h).1
  | .conditional test body rest, h => by
      simp only [Stmt.Printable] at h
      obtain ⟨htest, hbody, hrest⟩ := h
      obtain ⟨carried, stopping⟩ := Alternatives.layout_carries depth rest hrest
      rw [Stmt.layout, Stmt.lexemes, List.append_assoc, List.cons_append, List.cons_append,
        List.append_assoc]
      exact guardLayout_carries spells_mark htest
        ((Stmt.layout_carries depth body hbody).append carried stopping)
  | .whileLoop test body, h => by
      simp only [Stmt.Printable] at h
      rw [Stmt.layout, Stmt.lexemes, List.cons_append]
      exact guardLayout_carries spells_mark h.1 (Stmt.layout_carries depth body h.2)
  | .repeatLoop body, h => by
      simp only [Stmt.Printable] at h
      rw [Stmt.layout, Stmt.lexemes]
      exact (Stmt.layout_carries depth body h).wordSpace spells_mark
  | .forLoop, _ => by
      rw [Stmt.layout, Stmt.lexemes]
      exact carries_plain spells_mark (by decide)
  | .breakOut, _ => by
      rw [Stmt.layout, Stmt.lexemes]
      exact (carries_plain spells_mark (by decide)).closed
  | .continueOn, _ => by
      rw [Stmt.layout, Stmt.lexemes]
      exact (carries_plain spells_mark (by decide)).closed
  | .returnValue value, h => by
      simp only [Stmt.Printable] at h
      rw [Stmt.layout, Stmt.lexemes, List.cons_append, List.cons_append, List.cons_append]
      exact ((Expr.layout_carries value h).closed).wordSpace spells_mark
  | .declare decl, h => by
      simp only [Stmt.Printable] at h
      rw [Stmt.layout, Stmt.lexemes]
      exact VarDecl.layout_carries h
  | .evaluate value, h => by
      simp only [Stmt.Printable] at h
      rw [Stmt.layout, Stmt.lexemes]
      exact (Expr.layout_carries value h).closed

theorem Alternatives.layout_carries (depth : Nat) : (a : Alternatives) → a.Printable →
    Carries (a.layout depth) a.lexemes ∧ Stopping (a.layout depth)
  | .nothing, _ => by
      rw [Alternatives.layout, Alternatives.lexemes]
      exact ⟨carries_nil, stopping_nil⟩
  | .otherwise body, h => by
      simp only [Alternatives.Printable] at h
      rw [Alternatives.layout, Alternatives.lexemes]
      have carried := (Stmt.layout_carries depth body h).wordSpace
        (spells_mark : TokenKind.SpellsText .kwElse "else")
      exact ⟨carried.afterSpace, stopping_space _⟩
  | .elseIf test body rest, h => by
      simp only [Alternatives.Printable] at h
      obtain ⟨htest, hbody, hrest⟩ := h
      obtain ⟨carried, stopping⟩ := Alternatives.layout_carries depth rest hrest
      rw [Alternatives.layout, Alternatives.lexemes, List.append_assoc, List.cons_append,
        List.cons_append, List.cons_append, List.append_assoc]
      have branch := guardLayout_carries (spells_mark : TokenKind.SpellsText .kwElif "elif")
        htest ((Stmt.layout_carries depth body hbody).append carried stopping)
      exact ⟨branch.afterSpace, stopping_space _⟩

theorem Stmt.layoutLines_carries (depth : Nat) : (ss : List Stmt) → Stmt.AllPrintable ss →
    Carries (Stmt.layoutLines depth ss) (Stmt.lexemesAll ss) ∧ Stopping (Stmt.layoutLines depth ss)
  | [], _ => by
      rw [Stmt.layoutLines, Stmt.lexemesAll]
      exact ⟨carries_nil, stopping_nil⟩
  | s :: ss, h => by
      simp only [Stmt.AllPrintable] at h
      obtain ⟨carried, stopping⟩ := Stmt.layoutLines_carries depth ss h.2
      rw [Stmt.layoutLines, Stmt.lexemesAll, List.cons_append]
      exact ⟨((Stmt.layout_carries depth s h.1).append carried stopping).afterNewline depth,
        stopping_newline _ _⟩

end

/-! ## Declarations -/

theorem FuncDecl.layout_carries {d : FuncDecl} (h : d.Printable) :
    Carries d.layout d.lexemes := by
  obtain ⟨typeName, d, params, body⟩ := d
  obtain ⟨htype, hd, hparams, hbody⟩ := h
  have close : (⟨.rparen, ")"⟩ : Lexeme).IsSolidMark := by decide
  have openMark : (⟨.lparen, "("⟩ : Lexeme).IsSolidMark := by decide
  have params_carried := carries_commaSeparated fun p hp => Param.layout_carries (hparams p hp)
  have whole {gs : List Fragment} {ks : List Lexeme} (tail : Carries gs ks) :=
    ((Declarator.layout_carries hd).appendMark (params_carried.appendMark tail close)
      openMark).wordSpace htype
  cases body with
  | none =>
      have semicolon : (⟨.semicolon, ";"⟩ : Lexeme).IsSolidMark := by decide
      simpa [layout, lexemes, Lexeme.inParens] using whole (carries_nil.mark semicolon)
  | some body =>
      have block := inBraces_carries 0 (Stmt.layoutLines_carries 1 body (hbody body rfl)).1
      simpa [layout, lexemes, Lexeme.inParens] using whole block.afterSpace

theorem Decl.layout_carries {d : Decl} (h : d.Printable) : Carries d.layout d.lexemes := by
  cases d with
  | func d => exact FuncDecl.layout_carries h
  | var d => exact VarDecl.layout_carries h
  | param p => exact Param.layout_carries h

/-- The layout of a printable program holds its lexemes. -/
theorem Program.layout_holds {p : Program} (h : p.Printable) : Holds p.layout p.lexemes := by
  obtain ⟨ds⟩ := p
  induction ds with
  | nil => exact .nil
  | cons d ds ih =>
      rw [Printable, List.forall_mem_cons] at h
      have others := ih h.2
      show Holds (d.layout ++ [newline 0] ++ layout ⟨ds⟩) (d.lexemes ++ lexemes ⟨ds⟩)
      rw [List.append_assoc]
      exact Decl.layout_carries h.1 _ _ (others.newline 0) (stops_newline 0 _)

/-- The printed text of a printable program is scanned to the lexemes of the program. -/
theorem Program.scan_print {p : Program} (h : p.Printable) :
    scan p.print.toList = some p.lexemes := by
  rw [print, concat, String.toList_ofList]
  exact (layout_holds h).scan_eq

end ProcLang
