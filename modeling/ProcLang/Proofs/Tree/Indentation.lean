import Mathlib
import ProcLang.Proofs.Lexical.Lossless
import ProcLang.Proofs.Tree.Blocks

/-!
# Indentation follows the blocks

The depth of a line is counted in the tokens of the text alone: the braces that the lines before
it open and do not close, less one if the line itself begins with a closing brace. Every line of
a printed program is indented by four spaces for each of them (`indentation_follows_blocks`).
Since tokens are counted and not characters, braces in literals do not matter.
-/

set_option autoImplicit false

namespace ProcLang

open Fragment

/-! ## Lines and the tokens in them -/

/-- The line `line` of a text stands between `before` and the line feed that ends it, where
`after` follows. -/
structure IsLine (text before line after : List Char) : Prop where
  split : text = before ++ (line ++ '\n' :: after)
  one : '\n' ∉ line
  begins : before = [] ∨ before.getLast? = some '\n'

/-- The tokens that begin at byte `start` or behind it, and before byte `stop`. -/
def tokensBetween (ts : List Token) (start stop : Nat) : List Token :=
  ts.filter fun t => start ≤ t.span.start ∧ t.span.start < stop

/-- How many more braces some tokens open than they close. -/
def openBraces (ts : List Token) : Int :=
  countIn .lbrace (ts.map Token.toLexeme) - countIn .rbrace (ts.map Token.toLexeme)

/-- The depth of the line from byte `start` to byte `stop`: the braces that are open behind the
lines before it, less one if its first token closes one. -/
def lineDepth (ts : List Token) (start stop : Nat) : Int :=
  openBraces (tokensBetween ts 0 start) -
    if (tokensBetween ts start stop).head?.map (·.kind) = some .rbrace then 1 else 0

/-- A line begins with an indentation and then with a character that is no blank. -/
theorem LineStart.inv {d : Nat} {text : List Char} (h : LineStart d text) (some' : text ≠ []) :
    ∃ k c rest, text = List.replicate (4 * k) ' ' ++ c :: rest ∧ isBlank c = false ∧ c ≠ '/' ∧
      d = k + if c = '\x7d' then 1 else 0 := by
  cases h with
  | nothing => exact absurd rfl some'
  | inside d c rest notBlank notSlash notBrace =>
      exact ⟨d, c, rest, rfl, notBlank, notSlash, by rw [if_neg notBrace, Nat.add_zero]⟩
  | closing d rest => exact ⟨d, '\x7d', rest, rfl, by decide, by decide, rfl⟩

/-! ## The first token of a line -/

theorem utf8Length_spaces (n : Nat) : utf8Length (List.replicate n ' ') = n := by
  induction n with
  | zero => rfl
  | succ n ih =>
      rw [List.replicate_succ, utf8Length_cons, ih, Nat.add_comm]
      rfl

theorem placePieces_replicate_blank (offset n : Nat) (cs : List Char) :
    placePieces offset (pieces (List.replicate n ' ' ++ cs)) =
      placePieces (offset + n) (pieces cs) := by
  induction n generalizing offset with
  | zero => rfl
  | succ n ih =>
      have size : (' ').utf8Size = 1 := rfl
      rw [List.replicate_succ, List.cons_append, placePieces_blank (by decide), ih, size,
        Nat.add_assoc, Nat.add_comm 1 n]

/-- Only a closing brace spells its kind. -/
theorem kind_eq_rbrace_iff {kind : TokenKind} {c : Char} {cs : List Char}
    (spells : kind.Spells (c :: cs)) : kind = .rbrace ↔ c = '\x7d' := by
  have unique : ∀ p ∈ operators ++ reservedWords,
      (p.2 = .rbrace ↔ p.1.toList.head? = some '\x7d') := by
    decide
  constructor
  · rintro rfl
    have listed := (spells_of_isListed rfl _).1 spells
    have first := (unique _ listed).1 rfl
    rw [String.toList_ofList] at first
    exact Option.some.inj first
  · rintro rfl
    cases hlisted : kind.isListed with
    | true =>
        have listed := (spells_of_isListed hlisted _).1 spells
        refine (unique _ listed).2 ?_
        rw [String.toList_ofList]
        rfl
    | false =>
        -- the other kinds begin with a digit, a letter, an underscore or a quote
        have proper : ∀ op ∈ operators, op.2 ≠ kind := by
          rintro op mem rfl
          have := listed_kinds op (List.mem_append_left _ mem)
          rw [hlisted] at this
          exact Bool.false_ne_true this
        obtain ⟨c, cs', text, first⟩ := first_of_spells spells proper
        obtain ⟨rfl, rfl⟩ := List.cons.inj text
        exact absurd first (by decide)

/-- Where a text begins with no spacing, its first token stands at its front. -/
theorem first_of_placePieces {offset : Nat} {c : Char} {cs : List Char} {ts : List Token}
    (placed : placePieces offset (pieces (c :: cs)) = .ok ts) (notBlank : isBlank c = false)
    (notSlash : c ≠ '/') :
    ∃ t later, ts = t :: later ∧ t.span.start = offset ∧ (t.kind = .rbrace ↔ c = '\x7d') := by
  obtain ⟨more, rest, rfl, text, split⟩ := exists_pieces_cons c cs
  rw [split] at placed
  generalize found : firstPiece c (more ++ rest) = p at text placed
  cases p with
  | spacing text' =>
      exfalso
      rcases firstPiece_spacing found with ⟨blank, -⟩ | ⟨comment, -⟩
      · rw [notBlank] at blank
        exact Bool.false_ne_true blank
      · exact notSlash (List.cons_prefix_cons.1 comment).1.symm
  | lexeme kind text' =>
      obtain rfl : text' = c :: more := text
      simp only [placePieces] at placed
      cases behind : placePieces (offset + utf8Length (c :: more)) (pieces rest) with
      | error e =>
          rw [Piece.text, behind] at placed
          cases placed
      | ok later =>
          rw [Piece.text, behind] at placed
          obtain rfl := Except.ok.inj placed
          exact ⟨_, later, rfl, rfl, kind_eq_rbrace_iff (firstPiece_spells found)⟩
  | stray text' => cases placed

/-! ## The tokens before a line -/

/-- Every token of a text stops where it begins or behind it. -/
theorem Placed.start_le_stop {offset : Nat} {cs : List Char} {ts : List Token}
    (h : Placed offset cs ts) : ∀ t ∈ ts, t.span.start ≤ t.span.stop := by
  intro t mem
  obtain ⟨earlier, later, rfl⟩ := List.append_of_mem mem
  obtain ⟨front, gap, rest, -, -, span, -⟩ := h.split
  rw [span]
  exact Nat.le_add_right _ _

/-- The tokens of a text up to a line feed: they begin before it, they are the lexemes of the
text before it, and those behind it are placed as for themselves. -/
theorem split_tokens {before : List Char} {ls : List Lexeme} (known : scan before = some ls)
    (after : List Char) :
    ∃ front, front.map Token.toLexeme = ls ∧ (∀ t ∈ front, t.span.start ≤ utf8Length before) ∧
      placePieces 0 (pieces (before ++ '\n' :: after)) =
        (placePieces (utf8Length before + 1) (pieces after)).map (front ++ ·) := by
  obtain ⟨ts, placed⟩ := placePieces_of_lexemes known 0
  obtain ⟨front, rfl, behind⟩ := placePieces_append_line placed
  obtain ⟨front', n, split, lexemes, -⟩ := placePieces_eq_ok placed
  obtain ⟨rfl, -⟩ := List.append_inj' split rfl
  rw [Nat.zero_add] at placed behind
  refine ⟨front, Option.some.inj (lexemes.symm.trans known), fun t mem => ?_, behind after⟩
  have standing := placed_of_placePieces placed
  obtain ⟨-, ordered⟩ := standing.ordered
  have stops := (List.pairwise_append.1 ordered).2.2 t mem _ List.mem_cons_self
  exact (standing.start_le_stop t (List.mem_append_left _ mem)).trans stops

/-- What is known where a line begins: the tokens before it, those of the line and behind it,
and how many blocks are open. -/
structure LineAt (ts : List Token) (before after : List Char) (front later : List Token) (d : Nat) :
    Prop where
  split : ts = front ++ later
  earlier : ∀ t ∈ front, t.span.start < utf8Length before
  placed : placePieces (utf8Length before) (pieces after) = .ok later
  balance : countIn .lbrace (front.map Token.toLexeme) =
    countIn .rbrace (front.map Token.toLexeme) + d
  start : LineStart d after

section Lines

variable {ts front later : List Token} {before after line : List Char} {d : Nat}

theorem LineAt.tokensBetween_zero (h : LineAt ts before after front later d) :
    tokensBetween ts 0 (utf8Length before) = front := by
  have own : tokensBetween front 0 (utf8Length before) = front :=
    List.filter_eq_self.2 fun t mem => decide_eq_true ⟨Nat.zero_le _, h.earlier t mem⟩
  have others : tokensBetween later 0 (utf8Length before) = [] := by
    refine List.filter_eq_nil_iff.2 fun t mem inside => ?_
    have behind := (placed_of_placePieces h.placed).ordered.1 t mem
    exact Nat.not_lt.2 behind (of_decide_eq_true inside).2
  rw [tokensBetween, h.split, List.filter_append]
  exact (congrArg₂ (· ++ ·) own others).trans (List.append_nil front)

/-- The first token of a line is the first one behind the tokens before it. -/
theorem LineAt.tokensBetween_head (h : LineAt ts before after front later d) {stop : Nat}
    {t : Token} {others : List Token} (first : later = t :: others) (inside : t.span.start < stop) :
    (tokensBetween ts (utf8Length before) stop).head? = some t := by
  have behind := (placed_of_placePieces h.placed).ordered.1 t (first ▸ List.mem_cons_self)
  have own : tokensBetween front (utf8Length before) stop = [] :=
    List.filter_eq_nil_iff.2 fun t mem inside =>
      Nat.not_lt.2 (of_decide_eq_true inside).1 (h.earlier t mem)
  have split : tokensBetween ts (utf8Length before) stop =
      tokensBetween later (utf8Length before) stop := by
    rw [tokensBetween, h.split, List.filter_append]
    exact congrArg (· ++ _) own
  rw [split, tokensBetween, first, List.filter_cons, if_pos (decide_eq_true ⟨behind, inside⟩),
    List.head?_cons]

/-- A line is indented by its depth. -/
theorem LineAt.depth {rest : List Char}
    (h : LineAt ts before (line ++ '\n' :: rest) front later d) :
    ∃ (k : Nat) (c : Char) (cs : List Char), line = List.replicate (4 * k) ' ' ++ c :: cs ∧
      isBlank c = false ∧
        (k : Int) = lineDepth ts (utf8Length before) (utf8Length (before ++ line)) := by
  obtain ⟨k, c, cs, text, notBlank, notSlash, depth⟩ := h.start.inv (by simp)
  -- the first token of the line stands behind its indentation
  have placed := h.placed
  rw [text, placePieces_replicate_blank] at placed
  obtain ⟨t, others, first, start, closing⟩ := first_of_placePieces placed notBlank notSlash
  have noLine : '\n' ∉ List.replicate (4 * k) ' ' ++ [c] := by
    intro mem
    rcases List.mem_append.1 mem with mem | mem
    · exact absurd (List.eq_of_mem_replicate mem) (by decide)
    · obtain rfl := List.mem_singleton.1 mem
      exact absurd notBlank (by decide)
  have front : List.replicate (4 * k) ' ' ++ [c] ++ cs = line ++ '\n' :: rest := by
    rw [text, List.append_assoc, List.singleton_append]
  obtain ⟨m, whole, -⟩ := split_behind noLine front
  rw [List.append_assoc, List.singleton_append] at whole
  refine ⟨k, c, m, whole, notBlank, ?_⟩
  have inside : t.span.start < utf8Length (before ++ line) := by
    have char := c.utf8Size_pos
    rw [start, whole, utf8Length_append, utf8Length_append, utf8Length_spaces, utf8Length_cons]
    omega
  have balance := h.balance
  rw [lineDepth, openBraces, h.tokensBetween_zero, h.tokensBetween_head first inside,
    Option.map_some]
  simp only [Option.some.injEq, closing]
  split at depth
  next brace => rw [if_pos brace]; omega
  next other => rw [if_neg other]; omega

end Lines

/-! ## Printed programs -/

namespace Program

theorem toList_print (p : Program) : p.print.toList = p.layout.flatMap chars :=
  String.toList_ofList

theorem print_append (ds ds' : List Decl) :
    (mk (ds ++ ds')).print = (mk ds).print ++ (mk ds').print := by
  simp only [print, concat, layout, List.flatMap_append, String.ofList_append]

theorem print_cons (d : Decl) (ds : List Decl) :
    (mk (d :: ds)).print = concat d.layout ++ "\n" ++ (mk ds).print := by
  simp only [print, concat, layout, List.flatMap_cons, List.flatMap_append, String.ofList_append]
  rfl

/-- The text of a program is empty or ends in a line feed. -/
theorem print_ends (p : Program) : p.print = "" ∨ p.print.toList.getLast? = some '\n' := by
  obtain ⟨decls⟩ := p
  rcases List.eq_nil_or_concat decls with rfl | ⟨ds, d, rfl⟩
  · exact .inl rfl
  · have last : (mk [d]).print.toList = (concat d.layout).toList ++ ['\n'] := by
      rw [print_cons, String.toList_append, String.toList_append]
      exact List.append_nil _
    refine .inr ?_
    rw [List.concat_eq_append, print_append, String.toList_append, last, ← List.append_assoc,
      List.getLast?_concat]

variable {p : Program}

/-- The text of a program whose texts are lexemes splits into tokens. -/
theorem Spelled.tokenize (spelled : p.Spelled) : ∃ ts, tokenize p.print = .ok ts := by
  rcases p.print_ends with empty | last
  · rw [empty, ProcLang.tokenize, String.toList_empty, pieces]
    exact ⟨_, rfl⟩
  · obtain ⟨b, text⟩ := List.getLast?_eq_some_iff.1 last
    obtain ⟨ls, -, known, -⟩ :=
      ((layout_indented spelled).lineFeed (p.toList_print.symm.trans text)).braces
    obtain ⟨front, -, -, placed⟩ := split_tokens known []
    rw [ProcLang.tokenize, text, placed, pieces]
    exact ⟨_, rfl⟩

/-- A line of a printed program stands where its tokens are known. -/
theorem Spelled.lineAt (spelled : p.Spelled) {ts : List Token}
    (lexed : ProcLang.tokenize p.print = .ok ts) {before line after : List Char}
    (isLine : IsLine p.print.toList before line after) :
    ∃ front later d, LineAt ts before (line ++ '\n' :: after) front later d := by
  have indented := layout_indented spelled
  have split := isLine.split
  rcases isLine.begins with rfl | last
  · rw [List.nil_append] at split
    refine ⟨[], ts, 0, rfl, fun _ mem => absurd mem List.not_mem_nil, ?_, rfl, ?_⟩
    · rw [← split]
      exact lexed
    · rw [← split, toList_print]
      exact indented.lineStart
  -- the line before ends in a line feed
  · obtain ⟨b, rfl⟩ := List.getLast?_eq_some_iff.1 last
    rw [List.append_assoc, List.singleton_append] at split
    obtain ⟨ls, d, known, balance, start⟩ :=
      (indented.lineFeed (p.toList_print.symm.trans split)).braces
    obtain ⟨front, rfl, earlier, placed⟩ := split_tokens known (line ++ '\n' :: after)
    have size : utf8Length (b ++ ['\n']) = utf8Length b + 1 := utf8Length_append b ['\n']
    rw [ProcLang.tokenize, split, placed, ← size] at lexed
    cases behind : placePieces (utf8Length (b ++ ['\n'])) (pieces (line ++ '\n' :: after)) with
    | error e =>
        rw [behind] at lexed
        cases lexed
    | ok later =>
        rw [behind] at lexed
        refine ⟨front, later, d, (Except.ok.inj lexed).symm, fun t mem => ?_, behind, balance,
          start⟩
        rw [size]
        exact Nat.lt_succ_of_le (earlier t mem)

/-- Where some declarations are printed, the next one begins a line, and no blank begins it. -/
theorem isLine_of_decls (ds : List Decl) {d : Decl} {ds' : List Decl}
    (spelled : (mk (d :: ds')).Spelled) :
    ∃ line after, IsLine (mk (ds ++ d :: ds')).print.toList (mk ds).print.toList line after ∧
      ∃ c, line.head? = some c ∧ isBlank c = false := by
  have feed : '\n' ∈ (mk (d :: ds')).print.toList := by
    rw [print_cons, String.toList_append, String.toList_append]
    exact List.mem_append_left _ (List.mem_append_right _ List.mem_cons_self)
  obtain ⟨line, after, split, one⟩ := List.eq_append_cons_of_mem feed
  refine ⟨line, after, ⟨?_, one, ?_⟩, ?_⟩
  · rw [print_append, String.toList_append, split]
  · refine (mk ds).print_ends.imp_left fun empty => ?_
    rw [empty]
    rfl
  · have start := (layout_indented spelled).lineStart
    rw [← toList_print] at start
    obtain ⟨k, c, rest, text, notBlank, -, depth⟩ := start.inv (List.ne_nil_of_mem feed)
    obtain rfl : k = 0 := by omega
    replace text : line ++ '\n' :: after = c :: rest := split.symm.trans text
    refine ⟨c, ?_, notBlank⟩
    cases line with
    | nil =>
        obtain ⟨rfl, -⟩ := List.cons.inj text
        exact absurd notBlank (by decide)
    | cons c' line =>
        obtain ⟨rfl, -⟩ := List.cons.inj text
        rfl

end Program

/-! ## The indentation of a program -/

/-- Indentation follows the blocks. The text of a program whose texts are lexemes of their kinds
splits into tokens; it is empty or ends in a line feed; each of its lines holds a character that
is no blank, does not end in a space, and begins with exactly four spaces for each block of its
depth; and every declaration begins a line of depth zero. -/
theorem indentation_follows_blocks (u : Program) (spelled : u.Spelled) :
    ∃ tokens, tokenize u.print = .ok tokens ∧
      (u.print = "" ∨ u.print.toList.getLast? = some '\n') ∧
      (∀ before line after, IsLine u.print.toList before line after →
        ∃ (k : Nat) (c : Char) (cs : List Char), line = List.replicate (4 * k) ' ' ++ c :: cs ∧
          isBlank c = false ∧ line.getLast? ≠ some ' ' ∧
          (k : Int) = lineDepth tokens (utf8Length before) (utf8Length (before ++ line))) ∧
      ∀ ds d ds', u.decls = ds ++ d :: ds' →
        u.print = (Program.mk ds).print ++ concat d.layout ++ "\n" ++ (Program.mk ds').print ∧
        ∃ line after, IsLine u.print.toList (Program.mk ds).print.toList line after ∧
          lineDepth tokens (utf8Length (Program.mk ds).print.toList)
            (utf8Length ((Program.mk ds).print.toList ++ line)) = 0 := by
  obtain ⟨tokens, lexed⟩ := spelled.tokenize
  refine ⟨tokens, lexed, u.print_ends, ?_, ?_⟩
  · intro before line after isLine
    obtain ⟨front, later, d, known⟩ := spelled.lineAt lexed isLine
    obtain ⟨k, c, cs, whole, notBlank, depth⟩ := known.depth
    refine ⟨k, c, cs, whole, notBlank, ?_, depth⟩
    -- the line feed behind the line is one of the layout, too
    have split : u.layout.flatMap chars = (before ++ line) ++ '\n' :: after := by
      rw [← u.toList_print, isLine.split, List.append_assoc]
    have ends := ((Program.layout_indented spelled).lineFeed split).ends
    rw [List.getLast?_append, whole, List.getLast?_append, List.getLast?_cons] at ends
    rw [whole, List.getLast?_append, List.getLast?_cons]
    simpa using ends
  · intro ds d ds' decls
    obtain ⟨decls', rfl⟩ : ∃ decls', u = ⟨decls'⟩ := ⟨u.decls, rfl⟩
    obtain rfl : decls' = ds ++ d :: ds' := decls
    have others : (Program.mk (d :: ds')).Spelled := fun n mem => spelled n (by
      rw [Program.nodes, List.flatMap_append]
      exact List.mem_append_right _ mem)
    obtain ⟨line, after, isLine, c', first, noBlank⟩ := Program.isLine_of_decls ds others
    refine ⟨?_, line, after, isLine, ?_⟩
    · rw [Program.print_append, Program.print_cons]
      simp only [String.append_assoc]
    obtain ⟨front, later, _, known⟩ := spelled.lineAt lexed isLine
    obtain ⟨k, c, cs, whole, -, depth⟩ := known.depth
    rw [← depth]
    cases k with
    | zero => rfl
    | succ k =>
        -- an indented line would begin with a space
        rw [whole, Nat.mul_succ, List.replicate_succ] at first
        obtain rfl : ' ' = c' := Option.some.inj first
        exact absurd noBlank (by decide)

/-- A function whose branches stand in braces, with braces in literals, and in which two minus
signs are printed as one operator. -/
def nested : Program where
  decls :=
    [.func {
      typeName := "int"
      declarator := .plain "f"
      params := [⟨"char", .plain "c", none⟩]
      body := some
        [.conditional (.binary "==" (.ident "c") (.literal .char "'\x7b'"))
          (.block [.returnValue (.prefixOp "-" (.postIncrement (.prefixOp "-" (.ident "x"))))])
          (.elseIf (.binary "==" (.ident "s") (.literal .string "\"\x7d\"")) (.block [])
            .nothing)] },
     .var ⟨"int", [⟨.plain "y", none⟩]⟩]

set_option maxRecDepth 100000 in
/-- The line that closes one branch and opens the next has depth one, though more braces stand in
the literals before it and in it. -/
theorem indentation_follows_blocks_nested :
    nested.Spelled ∧
      ∃ tokens, tokenize nested.print = .ok tokens ∧ lineDepth tokens 58 82 = 1 := by
  have spelled : nested.Spelled := by decide
  obtain ⟨tokens, lexed, -, lines, -⟩ := indentation_follows_blocks nested spelled
  have isLine : IsLine nested.print.toList
      "int f(char c) \x7b\n    if (c == '\x7b') \x7b\n        return --x++;\n".toList
      "    \x7d elif (s == \"\x7d\") \x7b\x7d".toList "\x7d\nint y;\n".toList :=
    ⟨by cbv, by decide, .inr (by cbv)⟩
  obtain ⟨k, c, cs, whole, notBlank, -, depth⟩ := lines _ _ _ isLine
  refine ⟨spelled, tokens, lexed, ?_⟩
  have once : k = 1 := by
    cases k with
    | zero =>
        obtain ⟨rfl, -⟩ := List.cons.inj whole
        exact absurd notBlank (by decide)
    | succ k =>
        cases k with
        | zero => rfl
        | succ k =>
            -- the fifth character is no space any more
            rw [Nat.mul_add, Nat.mul_add] at whole
            simp [List.replicate_succ] at whole
  have start : utf8Length
      "int f(char c) \x7b\n    if (c == '\x7b') \x7b\n        return --x++;\n".toList = 58 := by
    decide
  have length : utf8Length "    \x7d elif (s == \"\x7d\") \x7b\x7d".toList = 24 := by
    decide
  rw [once, utf8Length_append, start, length] at depth
  exact depth.symm

end ProcLang
