import ProcLang.Proofs.Tree.Clauses

/-!
# Blocks and lines of a layout

A layout is made of clauses within a line, of braces, and of line breaks. `Indented` says how
these may follow each other where some blocks are open, and every layout of a tree is of this
form (`Stmt.layout_keeps`, `Program.layout_indented`). What holds of the text at each of its line
feeds is then proved once, along that form (`Indented.lineFeed`): which braces stand before it, what
stands at its end, and how the next line begins.
-/

set_option autoImplicit false

namespace ProcLang

open Fragment

/-! ## The form of a layout -/

/-- A text that stands at the beginning of a line where `d` blocks are open: it is indented by
them, or by all but one of them if it begins with a closing brace. -/
inductive LineStart : Nat → List Char → Prop where
  | nothing : LineStart 0 []
  | inside (d : Nat) (c : Char) (rest : List Char) : isBlank c = false → c ≠ '/' → c ≠ '\x7d' →
      LineStart d (List.replicate (4 * d) ' ' ++ c :: rest)
  | closing (d : Nat) (rest : List Char) :
      LineStart (d + 1) (List.replicate (4 * d) ' ' ++ '\x7d' :: rest)

/-- Fragments that stand where `d` blocks are open, up to the end of the text. Behind a gap,
which is a line break or a space, neither another gap nor a closing brace may follow. -/
inductive Indented : Nat → Bool → List Fragment → Prop where
  | done : Indented 0 true []
  | clause {d : Nat} {gap : Bool} {gs fs : List Fragment} : Clause gs → Stops fs →
      Indented d false fs → Indented d gap (gs ++ fs)
  | space {d : Nat} {fs : List Fragment} : Indented d true fs → Indented d false (.space :: fs)
  | opened {d : Nat} {gap : Bool} {fs : List Fragment} : Indented (d + 1) false fs →
      Indented d gap (.word "\x7b" :: fs)
  | closed {d : Nat} {fs : List Fragment} : Indented d false fs →
      Indented (d + 1) false (.word "\x7d" :: fs)
  | line {d : Nat} {fs : List Fragment} : Indented d true fs → Indented d false (.newline d :: fs)
  | lastLine {d : Nat} {fs : List Fragment} : Indented (d + 1) false (.word "\x7d" :: fs) →
      Indented (d + 1) false (.newline d :: .word "\x7d" :: fs)

/-- What follows a line break begins a line. -/
theorem Indented.lineStart {d : Nat} {fs : List Fragment} (h : Indented d true fs) :
    LineStart d (List.replicate (4 * d) ' ' ++ fs.flatMap chars) := by
  cases h with
  | done => exact .nothing
  | @clause _ _ gs fs clause stops behind =>
      obtain ⟨c, first, notBlank, notSlash, notBrace⟩ := clause.opens
      obtain ⟨rest, text⟩ := List.head?_eq_some_iff.1 first
      rw [List.flatMap_append, text]
      exact .inside d c _ notBlank notSlash notBrace
  | opened behind => exact .inside d '\x7b' _ (by decide) (by decide) (by decide)

/-! ## Line feeds -/

/-- A line feed between `before` and `after`, where `before` begins with `d` open blocks: the
braces before it say how many blocks are open behind it, `after` is indented by these, and
`before` does not end in a space. -/
structure LineFeed (d : Nat) (gap : Bool) (before after : List Char) : Prop where
  braces : ∃ ls d', scan before = some ls ∧ countIn .lbrace ls + d = countIn .rbrace ls + d' ∧
    LineStart d' after
  nonempty : gap = true → before ≠ []
  ends : before.getLast? ≠ some ' '

/-- Text that is put before. -/
theorem LineFeed.behind {d d' : Nat} {gap gap' : Bool} {cs before after : List Char}
    {ks : List Lexeme}
    (h : LineFeed d' gap' before after) (some' : cs ≠ [])
    (scanned : scan (cs ++ before) = (scan before).map (ks ++ ·))
    (braces : countIn .lbrace ks + d = countIn .rbrace ks + d')
    (ends : before = [] → cs.getLast? ≠ some ' ') : LineFeed d gap (cs ++ before) after where
  braces := by
    obtain ⟨ls, e, known, balance, start⟩ := h.braces
    refine ⟨ks ++ ls, e, ?_, ?_, start⟩
    · rw [scanned, known, Option.map_some]
    · rw [countIn_append, countIn_append]
      omega
  nonempty _ := by simp [some']
  ends := by
    rw [List.getLast?_append]
    cases last : before.getLast? with
    | none => exact ends (List.getLast?_eq_none_iff.1 last)
    | some c =>
        rw [Option.some_or, ← last]
        exact h.ends

/-- A line feed does not stand in a text that holds none. -/
theorem split_behind {cs ds before after : List Char} (noLine : '\n' ∉ cs)
    (split : cs ++ ds = before ++ '\n' :: after) :
    ∃ m, before = cs ++ m ∧ ds = m ++ '\n' :: after := by
  rcases List.append_eq_append_iff.1 split with ⟨m, rfl, rfl⟩ | ⟨m, rfl, behind⟩
  · exact ⟨m, rfl, rfl⟩
  · cases m with
    | nil => exact ⟨[], (List.append_nil _).symm ▸ (List.append_nil _).symm, behind.symm⟩
    | cons c m =>
        obtain ⟨rfl, -⟩ := List.cons.inj behind
        exact absurd (List.mem_append_right _ List.mem_cons_self) noLine

/-- A line feed is that of a line break, or it stands behind the indentation. -/
theorem split_newline {k : Nat} {cs before after : List Char}
    (split : (newline k).chars ++ cs = before ++ '\n' :: after) :
    (before = [] ∧ after = List.replicate (4 * k) ' ' ++ cs) ∨
      ∃ m, before = (newline k).chars ++ m ∧ cs = m ++ '\n' :: after := by
  cases before with
  | nil => exact .inl ⟨rfl, (List.cons.inj split).2.symm⟩
  | cons c before =>
      obtain ⟨rfl, behind⟩ := List.cons.inj split
      have spaces : '\n' ∉ List.replicate (4 * k) ' ' := by
        simp
      obtain ⟨m, rfl, rest⟩ := split_behind spaces behind
      exact .inr ⟨m, rfl, rest⟩

/-- A line break adds no lexeme. -/
theorem scan_newline (k : Nat) (cs : List Char) :
    scan ((newline k).chars ++ cs) = (scan cs).map ([] ++ ·) :=
  ((scan_blank (by decide)).trans (scan_replicate_blank _ _)).trans Option.map_id'.symm

/-- A brace is a lexeme by itself. -/
theorem scan_brace {kind : TokenKind} {text : String}
    (solid : (⟨kind, text⟩ : Lexeme).IsSolidMark) (cs : List Char) :
    scan (text.toList ++ cs) = (scan cs).map ([⟨kind, text⟩] ++ ·) :=
  @scan_lexeme cs ⟨kind, text⟩ (spells_mark (List.mem_append_left _ solid.1))
    (solid.isSolid.apart _)

/-- What holds at the line feeds of a layout. -/
theorem Indented.lineFeed {d : Nat} {gap : Bool} {fs : List Fragment} (h : Indented d gap fs)
    {before after : List Char} (split : fs.flatMap chars = before ++ '\n' :: after) :
    LineFeed d gap before after := by
  induction h generalizing before with
  | done => simp at split
  | @clause d gap gs fs clause stops _ ih =>
      rw [List.flatMap_append] at split
      obtain ⟨m, rfl, behind⟩ := split_behind clause.inert.oneLine split
      have stops' : ∀ c ∈ m.head?, isWordChar c = false ∧ c ≠ '.' := by
        intro c first
        refine stops c ?_
        rw [behind, List.head?_append, Option.mem_def.1 first]
        rfl
      obtain ⟨ks, free, scanned⟩ := clause.inert.adds m stops'
      obtain ⟨c, last, notSpace⟩ := clause.closes
      have some' : gs.flatMap chars ≠ [] := by
        intro none
        rw [none] at last
        exact absurd last (by simp)
      refine (ih behind).behind some' scanned ?_ fun _ => ?_
      · rw [countIn_eq_zero fun l mem => (free l mem).1,
          countIn_eq_zero fun l mem => (free l mem).2]
      · rw [last]
        simpa using notSpace
  | @space d fs _ ih =>
      obtain ⟨m, rfl, behind⟩ := split_behind (show '\n' ∉ [' '] by decide) split
      have rest := ih behind
      have scanned : scan ([' '] ++ m) = (scan m).map ([] ++ ·) :=
        (scan_blank (by decide)).trans Option.map_id'.symm
      exact rest.behind (List.cons_ne_nil _ _) scanned rfl
        fun none => absurd none (rest.nonempty rfl)
  | @opened d gap fs _ ih =>
      obtain ⟨m, rfl, behind⟩ := split_behind (show '\n' ∉ ['\x7b'] by decide) split
      have scanned := @scan_brace .lbrace "\x7b" (by decide) m
      exact (ih behind).behind (List.cons_ne_nil _ _) scanned (by simp [Nat.add_comm])
        fun _ => by decide
  | @closed d fs _ ih =>
      obtain ⟨m, rfl, behind⟩ := split_behind (show '\n' ∉ ['\x7d'] by decide) split
      have scanned := @scan_brace .rbrace "\x7d" (by decide) m
      exact (ih behind).behind (List.cons_ne_nil _ _) scanned (by simp [Nat.add_comm])
        fun _ => by decide
  | @line d fs h ih =>
      rcases split_newline split with ⟨rfl, rfl⟩ | ⟨m, rfl, behind⟩
      · exact ⟨⟨[], d, scan_nil, rfl, h.lineStart⟩, fun gap => absurd gap (by decide), by simp⟩
      · have rest := ih behind
        exact rest.behind (List.cons_ne_nil _ _) (scan_newline d m) rfl
          fun none => absurd none (rest.nonempty rfl)
  | @lastLine d fs _ ih =>
      rcases split_newline split with ⟨rfl, rfl⟩ | ⟨m, rfl, behind⟩
      · exact ⟨⟨[], d + 1, scan_nil, rfl, .closing d _⟩, fun gap => absurd gap (by decide), by simp⟩
      · refine (ih behind).behind (List.cons_ne_nil _ _) (scan_newline d m) rfl ?_
        rintro rfl
        exact absurd (List.cons.inj behind).1 (by decide)

/-! ## Layouts are of this form -/

/-- The fragments may stand where `d` blocks are open, behind a gap or not, and leave as many
open. -/
def Keeps (d : Nat) (gs : List Fragment) : Prop :=
  ∀ gap fs, Stops fs → Indented d false fs → Indented d gap (gs ++ fs)

/-- The fragments may stand behind a token where `d` blocks are open, and leave as many open. -/
structure Continues (d : Nat) (gs : List Fragment) : Prop where
  stopping : Stopping gs
  keeps : ∀ fs, Stops fs → Indented d false fs → Indented d false (gs ++ fs)

section Forms

variable {d : Nat} {gs gs' : List Fragment}

theorem keeps_clause (h : Clause gs) : Keeps d gs := fun _ _ stops behind =>
  .clause h stops behind

theorem Keeps.append (h : Keeps d gs) (h' : Continues d gs') : Keeps d (gs ++ gs') := by
  intro gap fs stops behind
  rw [List.append_assoc]
  exact h gap _ (h'.stopping fs stops) (h'.keeps fs stops behind)

theorem continues_nil : Continues d [] :=
  ⟨stopping_nil, fun _ _ behind => behind⟩

theorem continues_space (h : Keeps d gs) : Continues d (space :: gs) :=
  ⟨stopping_space gs, fun fs stops behind => .space (h true fs stops behind)⟩

theorem Continues.append (h : Continues d gs) (h' : Continues d gs') : Continues d (gs ++ gs') where
  stopping fs stops := by
    rw [List.append_assoc]
    exact h.stopping _ (h'.stopping fs stops)
  keeps fs stops behind := by
    rw [List.append_assoc]
    exact h.keeps _ (h'.stopping fs stops) (h'.keeps fs stops behind)

theorem continues_line (h : Keeps d gs) : Continues d (newline d :: gs) :=
  ⟨stopping_newline d gs, fun fs stops behind => .line (h true fs stops behind)⟩

/-- Braces open a block for the lines between them. -/
theorem keeps_inBraces {lines : List Fragment} (h : Continues (d + 1) lines) :
    Keeps d (inBraces d lines) := by
  intro gap fs stops behind
  cases lines with
  | nil => exact .opened (.closed behind)
  | cons line lines =>
      have whole : inBraces d (line :: lines) ++ fs =
          word "\x7b" :: (line :: lines ++ newline d :: word "\x7d" :: fs) := by
        simp [inBraces]
      rw [whole]
      exact .opened (h.keeps _ (stops_newline d _) (.lastLine (.closed behind)))

/-- What a condition guards stands behind it. -/
theorem keeps_guard {kind : TokenKind} {keyword : String} {test : Expr}
    (known : (keyword, kind) ∈ reservedWords) (h : (Node.expr test).Spelled) (body : Keeps d gs) :
    Keeps d (guardLayout keyword test ++ gs) := by
  have whole : guardLayout keyword test ++ gs =
      word keyword :: space :: (word "(" :: test.layout ++ [word ")"]) ++ space :: gs := by
    simp [guardLayout]
  rw [whole]
  exact (keeps_clause (clause_guard known h)).append (continues_space body)

end Forms

mutual

/-- A statement leaves the blocks open in which it stands. -/
theorem Stmt.layout_keeps (d : Nat) : (s : Stmt) → (Node.stmt s).Spelled → Keeps d (s.layout d)
  | .block body, h => by
      rw [Stmt.layout]
      exact keeps_inBraces (Stmt.layoutLines_continues (d + 1) body fun s mem =>
        h.child (List.mem_map_of_mem mem))
  | .conditional test body rest, h => by
      have body := Stmt.layout_keeps d body (h.child (List.mem_cons_of_mem _ List.mem_cons_self))
      have rest := Alternatives.layout_continues d rest fun c mem =>
        h.child (List.mem_cons_of_mem _ (List.mem_cons_of_mem _ mem))
      rw [Stmt.layout, List.append_assoc]
      have known : ("if", .kwIf) ∈ reservedWords := by decide
      exact keeps_guard known (h.child List.mem_cons_self) (body.append rest)
  | .whileLoop test body, h => by
      have body := Stmt.layout_keeps d body (h.child (List.mem_cons_of_mem _ List.mem_cons_self))
      rw [Stmt.layout]
      have known : ("while", .kwWhile) ∈ reservedWords := by decide
      exact keeps_guard known (h.child List.mem_cons_self) body
  | .repeatLoop body, h => by
      have body := Stmt.layout_keeps d body (h.child List.mem_cons_self)
      have known : ("repeat", .kwRepeat) ∈ reservedWords := by decide
      rw [Stmt.layout]
      exact (keeps_clause (clause_keyword known)).append (continues_space body)
  | .forLoop, _ => by
      rw [Stmt.layout]
      have known : ("for", .kwFor) ∈ reservedWords := by decide
      exact keeps_clause (clause_keyword known)
  | .breakOut, _ => by
      rw [Stmt.layout]
      have known : ("break", .kwBreak) ∈ reservedWords := by decide
      exact keeps_clause (clause_keyword known).closed
  | .continueOn, _ => by
      rw [Stmt.layout]
      have known : ("continue", .kwContinue) ∈ reservedWords := by decide
      exact keeps_clause (clause_keyword known).closed
  | .returnValue value, h => by
      have value := Expr.layout_clause (h.child List.mem_cons_self)
      rw [Stmt.layout]
      have known : ("return", .kwReturn) ∈ reservedWords := by decide
      exact keeps_clause (clause_keyword_space known value.inert value.closes).closed
  | .declare decl, h => by
      rw [Stmt.layout]
      exact keeps_clause (VarDecl.layout_clause h.own fun e mem =>
        h.child (List.mem_map_of_mem mem))
  | .evaluate value, h => by
      rw [Stmt.layout]
      exact keeps_clause (Expr.layout_clause (h.child List.mem_cons_self)).closed

theorem Alternatives.layout_continues (d : Nat) : (a : Alternatives) →
    (∀ c ∈ a.children, c.Spelled) → Continues d (a.layout d)
  | .nothing, _ => by
      rw [Alternatives.layout]
      exact continues_nil
  | .otherwise body, h => by
      have body := Stmt.layout_keeps d body (h _ List.mem_cons_self)
      have known : ("else", .kwElse) ∈ reservedWords := by decide
      rw [Alternatives.layout]
      exact continues_space ((keeps_clause (clause_keyword known)).append (continues_space body))
  | .elseIf test body rest, h => by
      have body := Stmt.layout_keeps d body (h _ (List.mem_cons_of_mem _ List.mem_cons_self))
      have rest := Alternatives.layout_continues d rest fun c mem =>
        h c (List.mem_cons_of_mem _ (List.mem_cons_of_mem _ mem))
      rw [Alternatives.layout, List.append_assoc]
      have known : ("elif", .kwElif) ∈ reservedWords := by decide
      exact continues_space (keeps_guard known (h _ List.mem_cons_self) (body.append rest))

theorem Stmt.layoutLines_continues (d : Nat) : (ss : List Stmt) →
    (∀ s ∈ ss, (Node.stmt s).Spelled) → Continues d (Stmt.layoutLines d ss)
  | [], _ => by
      rw [Stmt.layoutLines]
      exact continues_nil
  | s :: ss, h => by
      obtain ⟨first, others⟩ := List.forall_mem_cons.1 h
      rw [Stmt.layoutLines]
      exact (continues_line (Stmt.layout_keeps d s first)).append
        (Stmt.layoutLines_continues d ss others)

end

theorem FuncDecl.layout_keeps {d : FuncDecl} (h : (Node.decl (.func d)).Spelled) :
    Keeps 0 d.layout := by
  have head := FuncDecl.head_clause h.own fun e mem =>
    h.child (List.mem_append_left _ (List.mem_map_of_mem mem))
  cases body : d.body with
  | none =>
      have semicolon : IsInertMark ";" := by decide
      have whole : Keeps 0 _ := keeps_clause (head.closed semicolon)
      simpa [layout, body] using whole
  | some ss =>
      have lines := Stmt.layoutLines_continues 1 ss fun s mem =>
        h.child (List.mem_append_right _ (List.mem_map_of_mem (body ▸ mem)))
      have whole := (keeps_clause head).append (continues_space (keeps_inBraces lines))
      simpa [layout, body] using whole

theorem Decl.layout_keeps {d : Decl} (h : (Node.decl d).Spelled) : Keeps 0 d.layout := by
  cases d with
  | func d => exact d.layout_keeps h
  | var d =>
      exact keeps_clause (VarDecl.layout_clause h.own fun e mem =>
        h.child (List.mem_map_of_mem mem))
  | param d =>
      exact keeps_clause (Param.layout_clause h.own fun e mem => h.child (List.mem_map_of_mem mem))

theorem Program.layout_indented {p : Program} (h : p.Spelled) : Indented 0 true p.layout := by
  obtain ⟨decls⟩ := p
  induction decls with
  | nil => exact .done
  | cons d ds ih =>
      have first : (Node.decl d).Spelled := h.decl List.mem_cons_self
      have others : (⟨ds⟩ : Program).Spelled := fun n mem => h n (List.mem_append_right _ mem)
      have whole : (⟨d :: ds⟩ : Program).layout =
          d.layout ++ newline 0 :: (⟨ds⟩ : Program).layout := by
        simp [layout]
      rw [whole]
      exact Decl.layout_keeps first true _ (stops_newline 0 _) (.line (ih others))

end ProcLang
