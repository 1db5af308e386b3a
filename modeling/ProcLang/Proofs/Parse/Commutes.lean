import Mathlib.Data.List.Forall2
import ProcLang.Parse.Program
import ProcLang.Tree.Texts

/-!
# Parsers on tokens with other texts

What a parser does on tokens with other texts at other places: the kinds decide how it goes on,
so it does the same, and the texts only pass into its value. The relation `Commutes` between
two runs is kept by every way of reading, and so by the whole grammar
(`nestedParsers_natural`).
-/

set_option autoImplicit false

namespace ProcLang

open TokenReader

namespace Parser

variable {α β γ δ σ σ' : Type}

/-- How a round changes with its state and its value. -/
def roundMap (f : σ → σ') (g : α → β) : Round σ α → Round σ' β
  | .done a => .done (g a)
  | .again s => .again (f s)

/-- On related tokens the second parser gives the value of the first, changed by `g`, and both
leave related tokens. -/
def Commutes (R : Token → Token → Prop) (g : α → β) (p : Parser α) (q : Parser β) : Prop :=
  ∀ ts ts', List.Forall₂ R ts ts' →
    (q ts').value = (p ts).value.map g ∧ List.Forall₂ R (p ts).rest (q ts').rest

namespace Commutes

variable {R : Token → Token → Prop} {g : α → β}

theorem pure (a : α) : Commutes R g (Pure.pure a) (Pure.pure (g a)) := by
  intro ts ts' related
  exact ⟨rfl, related⟩

theorem refuse : Commutes R g TokenReader.refuse TokenReader.refuse := by
  intro ts ts' related
  exact ⟨rfl, related⟩

theorem noteDeclaration :
    Commutes R id TokenReader.noteDeclaration TokenReader.noteDeclaration := by
  intro ts ts' related
  exact ⟨rfl, related⟩

theorem bind {p : Parser γ} {p' : Parser δ} {h : γ → δ} {k : γ → Parser α} {k' : δ → Parser β}
    (first : Commutes R h p p') (second : ∀ c, Commutes R g (k c) (k' (h c))) :
    Commutes R g (p >>= k) (p' >>= k') := by
  intro ts ts' related
  obtain ⟨value, rest⟩ := first ts ts' related
  -- the first parts refuse both, or both hand on a value, the second that of the first changed
  cases hvalue : (p ts).value with
  | none =>
      rw [hvalue] at value
      rw [bind_none hvalue, bind_none value]
      exact ⟨rfl, rest⟩
  | some c =>
      rw [hvalue] at value
      rw [bind_some hvalue, bind_some value]
      exact second c _ _ rest

/-- Where the first parts give the same value, it goes into both second parts. -/
theorem bind_same {p p' : Parser γ} {k : γ → Parser α} {k' : γ → Parser β}
    (first : Commutes R id p p') (second : ∀ c, Commutes R g (k c) (k' c)) :
    Commutes R g (p >>= k) (p' >>= k') :=
  first.bind second

theorem loop {f : σ → σ'} {round : σ → Parser (Round σ α)} {round' : σ' → Parser (Round σ' β)}
    (h : ∀ s, Commutes R (roundMap f g) (round s) (round' (f s))) (s : σ) :
    Commutes R g (TokenReader.loop round s) (TokenReader.loop round' (f s)) := by
  intro ts ts' related
  show (iterate round' (f s) ts').value = (iterate round s ts).value.map g ∧
    List.Forall₂ R (iterate round s ts).rest (iterate round' (f s) ts').rest
  -- related tokens are as many, so both loops judge alike whether a round consumed
  fun_induction iterate round s ts generalizing ts' with
  | case1 s ts first hvalue =>
      obtain ⟨value, rest⟩ := h s ts ts' related
      rw [hvalue] at value
      rw [iterate]
      simp only [value, Option.map_none]
      exact ⟨trivial, rest⟩
  | case2 s ts first a hvalue =>
      obtain ⟨value, rest⟩ := h s ts ts' related
      rw [hvalue] at value
      rw [iterate]
      simp only [value, Option.map_some, roundMap]
      exact ⟨trivial, rest⟩
  | case3 s ts first next hvalue shorter others ih =>
      obtain ⟨value, rest⟩ := h s ts ts' related
      have shorter' : (round' (f s) ts').rest.length < ts'.length := by
        rw [← rest.length_eq, ← related.length_eq]
        exact shorter
      rw [hvalue] at value
      rw [iterate]
      simp only [value, Option.map_some, roundMap]
      rw [if_pos shorter']
      exact ih _ rest
  | case4 s ts first next hvalue stuck =>
      obtain ⟨value, rest⟩ := h s ts ts' related
      have stuck' : ¬ (round' (f s) ts').rest.length < ts'.length := by
        rw [← rest.length_eq, ← related.length_eq]
        exact stuck
      rw [hvalue] at value
      rw [iterate]
      simp only [value, Option.map_some, roundMap]
      rw [if_neg stuck']
      exact ⟨rfl, rest⟩

theorem ite {c : Prop} [Decidable c] {p q : Parser α} {p' q' : Parser β} (yes : Commutes R g p p')
    (no : Commutes R g q q') : Commutes R g (if c then p else q) (if c then p' else q') := by
  split
  · exact yes
  · exact no

end Commutes

end Parser

/-- The second token is of the kind of the first, and its text is that of the first, changed by
`f`. Nothing is said about their places. -/
structure Token.Renames (f : String → String) (t t' : Token) : Prop where
  kind : t'.kind = t.kind
  text : t'.text = f t.text

section Reading

open ProcLang.Parser (Commutes roundMap)

variable {R : Token → Token → Prop} {f : String → String} (h : ∀ t t', R t t' → t.Renames f t')

include h

theorem headKind_renames {ts ts' : List Token} (related : List.Forall₂ R ts ts') :
    headKind ts' = headKind ts := by
  cases related with
  | nil => rfl
  | cons first others => exact (h _ _ first).kind

theorem kinds_renames {ts ts' : List Token} (related : List.Forall₂ R ts ts') :
    ts'.map (·.kind) = ts.map (·.kind) := by
  induction related with
  | nil => rfl
  | cons first others ih => rw [List.map_cons, List.map_cons, (h _ _ first).kind, ih]

theorem kindAhead_commutes : Commutes R id kindAhead kindAhead := by
  intro ts ts' related
  exact ⟨congrArg some (headKind_renames h related), related⟩

theorem lookingAt_commutes (pattern : List TokenKind) :
    Commutes R id (lookingAt pattern) (lookingAt pattern) := by
  intro ts ts' related
  refine ⟨?_, related⟩
  show some (_ == pattern) = some (_ == pattern)
  rw [List.map_take, List.map_take, kinds_renames h related]

theorem advance_commutes : Commutes R f advance advance := by
  intro ts ts' related
  cases related with
  | nil => exact ⟨rfl, .nil⟩
  | cons first others => exact ⟨congrArg some (h _ _ first).text, others⟩

variable {α β γ : Type} {g : α → β}

theorem choose_commutes {accepts : TokenKind → Option γ} {taken : γ → String → Parser α}
    {taken' : γ → String → Parser β} {otherwise : Parser α} {otherwise' : Parser β}
    (htaken : ∀ c text, Commutes R g (taken c text) (taken' c (f text)))
    (hotherwise : Commutes R g otherwise otherwise') :
    Commutes R g (choose accepts taken otherwise) (choose accepts taken' otherwise') := by
  apply (kindAhead_commutes h).bind_same
  intro kind
  cases accepts kind with
  | none => exact hotherwise
  | some c => exact (advance_commutes h).bind (htaken c)

theorem expect_commutes (wanted : TokenKind) : Commutes R f (expect wanted) (expect wanted) :=
  choose_commutes h (fun _ text => .pure text) .refuse

theorem skip_commutes (wanted : TokenKind) : Commutes R id (skip wanted) (skip wanted) :=
  choose_commutes h (fun _ _ => .pure ()) .refuse

theorem eat_commutes (wanted : TokenKind) : Commutes R id (eat wanted) (eat wanted) :=
  choose_commutes h (fun _ _ => .pure true) (.pure false)

omit h in
theorem listUntil_commutes {ended : Parser Bool} {item : Parser α} {item' : Parser β}
    (hended : Commutes R id ended ended) (hitem : Commutes R g item item') :
    Commutes R (List.map g) (listUntil ended item) (listUntil ended item') := by
  refine Commutes.loop (f := List.map g) (fun items => ?_) []
  refine hended.bind_same fun finished => .ite ?_ ?_
  · rw [← List.map_reverse]
    exact .pure (Round.done items.reverse)
  · exact hitem.bind fun a => .pure (Round.again (a :: items))

theorem commaList_commutes {closing : TokenKind} {item : Parser α} {item' : Parser β}
    (hitem : Commutes R g item item') :
    Commutes R (List.map g) (commaList closing item) (commaList closing item') := by
  refine Commutes.loop (f := List.map g) (fun items => ?_) []
  refine hitem.bind fun a => (eat_commutes h closing).bind_same fun finished => .ite ?_ ?_
  · rw [← List.map_cons, ← List.map_reverse]
    exact .pure (Round.done (a :: items).reverse)
  · exact (skip_commutes h .comma).bind_same fun _ => .pure (Round.again (a :: items))

theorem parenList_commutes {item : Parser α} {item' : Parser β} (hitem : Commutes R g item item') :
    Commutes R (List.map g) (parenList item) (parenList item') :=
  (eat_commutes h .rparen).bind_same fun _ => .ite (.pure []) (commaList_commutes h hitem)

/-! ## The grammar -/

theorem Declarator.parse_commutes :
    Commutes R (Declarator.mapTexts f) Declarator.parse Declarator.parse :=
  (lookingAt_commutes h _).bind_same fun _ => .ite
    ((skip_commutes h _).bind_same fun _ => (expect_commutes h _).bind fun name =>
      .pure (Declarator.pointer name))
    ((expect_commutes h _).bind fun name => .pure (Declarator.plain name))

theorem Param.parse_commutes : Commutes R (Param.mapTexts f) Param.parse Param.parse :=
  (expect_commutes h _).bind fun typeName => (Declarator.parse_commutes h).bind fun d =>
    .pure (Param.mk typeName ⟨d, none⟩)

omit h in
/-- The parsers of the nested phrases pass the texts on. -/
structure Nested.Natural (R : Token → Token → Prop) (f : String → String) (inner : Nested Parser) :
    Prop where
  operand : ∀ least, Commutes R (Expr.mapTexts f) (inner.operand least) (inner.operand least)
  unary : Commutes R (Expr.mapTexts f) inner.unary inner.unary
  stmt : Commutes R (Stmt.mapTexts f) inner.stmt inner.stmt

namespace Nested.Natural

variable {inner : Nested Parser} (nested : Natural R f inner)

include nested

omit h in
theorem expr : Commutes R (Expr.mapTexts f) inner.expr inner.expr :=
  nested.operand 0

theorem primary : Commutes R (Expr.mapTexts f) inner.primary inner.primary :=
  choose_commutes h (fun family text => .pure (Expr.literal family text)) <|
    choose_commutes h (fun _ name => .pure (Expr.ident name)) <|
      (skip_commutes h _).bind_same fun _ => nested.expr.bind fun e =>
        (skip_commutes h _).bind_same fun _ => .pure (Expr.paren e)

theorem postfixRound (base : Expr) :
    Commutes R (roundMap (Expr.mapTexts f) (Expr.mapTexts f)) (inner.postfixRound base)
      (inner.postfixRound (base.mapTexts f)) := by
  refine (kindAhead_commutes h).bind_same fun kind => ?_
  split
  · exact (skip_commutes h _).bind_same fun _ => .pure (Round.again (Expr.postIncrement base))
  · exact (skip_commutes h _).bind_same fun _ => .pure (Round.again (Expr.postDecrement base))
  · refine (skip_commutes h _).bind_same fun _ =>
      (parenList_commutes h nested.expr).bind fun args => ?_
    rw [← Expr.mapTextsEach_eq_map]
    exact .pure (Round.again (Expr.call base args))
  · exact (skip_commutes h _).bind_same fun _ => nested.expr.bind fun index =>
      (skip_commutes h _).bind_same fun _ => .pure (Round.again (Expr.subscript base index))
  · exact .pure (Round.done base)

theorem unaryExpr : Commutes R (Expr.mapTexts f) inner.unaryExpr inner.unaryExpr :=
  choose_commutes h (fun _ op => nested.unary.bind fun e => .pure (Expr.prefixOp op e)) <|
    (nested.primary h).bind fun base => .loop (nested.postfixRound h) base

theorem binaryRound (least : Nat) (lhs : Expr) :
    Commutes R (roundMap (Expr.mapTexts f) (Expr.mapTexts f)) (inner.binaryRound least lhs)
      (inner.binaryRound least (lhs.mapTexts f)) :=
  choose_commutes h
    (fun _ op => (nested.operand _).bind fun rhs => .pure (Round.again (Expr.binary op lhs rhs)))
    (.pure (Round.done lhs))

theorem operatorExpr (least : Nat) :
    Commutes R (Expr.mapTexts f) (inner.operatorExpr least) (inner.operatorExpr least) :=
  (nested.unaryExpr h).bind fun first => .loop (nested.binaryRound h least) first

theorem initBinding : Commutes R (Binding.mapTexts f) inner.initBinding inner.initBinding :=
  (Declarator.parse_commutes h).bind fun d => (eat_commutes h _).bind_same fun _ => .ite
    (nested.expr.bind fun e => .pure (Binding.mk d (some e)))
    (.pure (Binding.mk d none))

theorem varDecl : Commutes R (VarDecl.mapTexts f) inner.varDecl inner.varDecl :=
  (expect_commutes h _).bind fun typeName =>
    (commaList_commutes h (nested.initBinding h)).bind fun bindings =>
      .pure (VarDecl.mk typeName bindings)

theorem blockBody : Commutes R (List.map (Stmt.mapTexts f)) inner.blockBody inner.blockBody :=
  listUntil_commutes (eat_commutes h _) nested.stmt

theorem condition : Commutes R (Expr.mapTexts f) inner.condition inner.condition :=
  (skip_commutes h _).bind_same fun _ => nested.expr.bind fun test =>
    (skip_commutes h _).bind_same fun _ => .pure test

theorem branch :
    Commutes R (Prod.map (Expr.mapTexts f) (Stmt.mapTexts f)) inner.branch inner.branch :=
  (nested.condition h).bind fun test => nested.stmt.bind fun body => .pure (test, body)

theorem elseClause : Commutes R (Alternatives.mapTexts f) inner.elseClause inner.elseClause :=
  (eat_commutes h _).bind_same fun _ => .ite
    (nested.stmt.bind fun body => .pure (Alternatives.otherwise body))
    (.pure Alternatives.nothing)

omit h nested in
/-- The branches of a conditional and what is behind them, as alternatives. -/
theorem mapTexts_foldr (branches : List (Expr × Stmt)) (last : Alternatives) :
    (branches.foldr (fun b rest => Alternatives.elseIf b.1 b.2 rest) last).mapTexts f =
      (branches.map (Prod.map (Expr.mapTexts f) (Stmt.mapTexts f))).foldr
        (fun b rest => .elseIf b.1 b.2 rest) (last.mapTexts f) := by
  induction branches with
  | nil => rfl
  | cons b branches ih => exact congrArg (Alternatives.elseIf _ _) ih

theorem alternatives :
    Commutes R (Alternatives.mapTexts f) inner.alternatives inner.alternatives := by
  have goesOn : Commutes R id (do return !(← eat .kwElif) : Parser Bool)
      (do return !(← eat .kwElif)) :=
    (eat_commutes h _).bind_same fun found => .pure (!found)
  refine (listUntil_commutes goesOn (nested.branch h)).bind fun branches =>
    (nested.elseClause h).bind fun last => ?_
  rw [← mapTexts_foldr]
  exact .pure _

theorem statement : Commutes R (Stmt.mapTexts f) inner.statement inner.statement := by
  refine (kindAhead_commutes h).bind_same fun kind => ?_
  split
  · refine (skip_commutes h _).bind_same fun _ => (nested.blockBody h).bind fun body => ?_
    rw [← Stmt.mapTextsEach_eq_map]
    exact .pure (Stmt.block body)
  · exact (skip_commutes h _).bind_same fun _ => (nested.branch h).bind fun b =>
      (nested.alternatives h).bind fun rest => .pure (Stmt.conditional b.1 b.2 rest)
  · exact (skip_commutes h _).bind_same fun _ => (nested.branch h).bind fun b =>
      .pure (Stmt.whileLoop b.1 b.2)
  · exact (skip_commutes h _).bind_same fun _ => nested.stmt.bind fun body =>
      .pure (Stmt.repeatLoop body)
  · exact .refuse
  · exact (skip_commutes h _).bind_same fun _ => (skip_commutes h _).bind_same fun _ =>
      .pure Stmt.breakOut
  · exact (skip_commutes h _).bind_same fun _ => (skip_commutes h _).bind_same fun _ =>
      .pure Stmt.continueOn
  · exact (skip_commutes h _).bind_same fun _ => nested.expr.bind fun value =>
      (skip_commutes h _).bind_same fun _ => .pure (Stmt.returnValue value)
  · exact (nested.varDecl h).bind fun decl => .pure (Stmt.declare decl)
  · exact nested.expr.bind fun value => (skip_commutes h _).bind_same fun _ =>
      .pure (Stmt.evaluate value)

theorem funcDecl : Commutes R (FuncDecl.mapTexts f) inner.funcDecl inner.funcDecl :=
  (expect_commutes h _).bind fun typeName => (Declarator.parse_commutes h).bind fun d =>
    (skip_commutes h _).bind_same fun _ =>
      (parenList_commutes h (Param.parse_commutes h)).bind fun params =>
        (eat_commutes h _).bind_same fun _ => .ite
          ((nested.blockBody h).bind fun body => .pure (FuncDecl.mk typeName d params (some body)))
          ((skip_commutes h _).bind_same fun _ => .pure (FuncDecl.mk typeName d params none))

theorem declaration : Commutes R (Decl.mapTexts f) inner.declaration inner.declaration :=
  Commutes.noteDeclaration.bind_same fun _ =>
    (lookingAt_commutes h _).bind_same fun _ => (lookingAt_commutes h _).bind_same fun _ => .ite
      ((nested.funcDecl h).bind fun d => .pure (Decl.func d))
      ((lookingAt_commutes h _).bind_same fun _ => (lookingAt_commutes h _).bind_same fun _ => .ite
        ((nested.varDecl h).bind fun d => .pure (Decl.var d))
        .refuse)

theorem program : Commutes R (Program.mapTexts f) inner.program inner.program := by
  have ended : Commutes R id (do return (← kindAhead) == .endOfInput : Parser Bool)
      (do return (← kindAhead) == .endOfInput) :=
    (kindAhead_commutes h).bind_same fun kind => .pure (kind == .endOfInput)
  exact (listUntil_commutes ended (nested.declaration h)).bind fun decls =>
    .pure (Program.mk decls)

end Nested.Natural

/-- At every level the texts only pass into the trees. -/
theorem nestedParsers_natural (n : Nat) : (nestedParsers n).Natural R f := by
  induction n with
  | zero => exact ⟨fun _ => .refuse, .refuse, .refuse⟩
  | succ n ih => exact ⟨ih.operatorExpr h, ih.unaryExpr h, ih.statement h⟩

end Reading

end ProcLang
