import ProcLang.Proofs.Lexical.LongestMatch
import ProcLang.Proofs.Tree.Marks
import ProcLang.Proofs.Tree.Printable
import ProcLang.Tree.Spelled

/-!
# What stands in a line

Expressions, the heads of statements and whole declarations of variables are printed within one
line, and none of their tokens is a brace. This is proved here for every tree whose texts are
lexemes, also where the operators of the tree are not the tokens of the text: a prefix operator
is printed directly before an operand that begins with another one, if the operand is no prefix
expression itself, and the characters of the two may make a longer operator (`adds_run`).
-/

set_option autoImplicit false

namespace ProcLang

/-- None of the lexemes is a brace. -/
def BraceFree (ls : List Lexeme) : Prop :=
  ∀ l ∈ ls, l.kind ≠ .lbrace ∧ l.kind ≠ .rbrace

/-- A kind that no lexeme has is not counted. -/
theorem countIn_eq_zero {kind : TokenKind} {ls : List Lexeme} (h : ∀ l ∈ ls, l.kind ≠ kind) :
    countIn kind ls = 0 :=
  List.count_eq_zero.2 fun mem => by
    obtain ⟨l, inside, same⟩ := List.mem_map.1 mem
    exact h l inside same

/-- Before `rest`, the text `cs` is split into lexemes that are no braces, and `rest` as for
itself. -/
def AddsNoBrace (cs rest : List Char) : Prop :=
  ∃ ks, BraceFree ks ∧ scan (cs ++ rest) = (scan rest).map (ks ++ ·)

theorem adds_nil (rest : List Char) : AddsNoBrace [] rest :=
  ⟨[], fun _ mem => absurd mem List.not_mem_nil, Option.map_id'.symm⟩

theorem AddsNoBrace.append {cs ds rest : List Char} (h : AddsNoBrace cs (ds ++ rest))
    (h' : AddsNoBrace ds rest) : AddsNoBrace (cs ++ ds) rest := by
  obtain ⟨ks, free, whole⟩ := h
  obtain ⟨ms, free', behind⟩ := h'
  refine ⟨ks ++ ms, List.forall_mem_append.2 ⟨free, free'⟩, ?_⟩
  rw [List.append_assoc, whole, behind, Option.map_map]
  congr 1
  funext ls
  exact (List.append_assoc ..).symm

/-- A piece that is a lexeme. -/
theorem adds_piece {c : Char} {cs rest : List Char} {kind : TokenKind}
    (found : firstPiece c (cs ++ rest) = .lexeme kind (c :: cs))
    (noBrace : kind ≠ .lbrace ∧ kind ≠ .rbrace) : AddsNoBrace (c :: cs) rest := by
  refine ⟨[⟨kind, String.ofList (c :: cs)⟩], List.forall_mem_singleton.2 noBrace, ?_⟩
  rw [List.cons_append, scan, pieces_cons (congrArg Piece.text found), found, Piece.lexemes?]
  rfl

theorem adds_lexeme {kind : TokenKind} {text : String} {rest : List Char}
    (spells : kind.SpellsText text) (noBrace : kind ≠ .lbrace ∧ kind ≠ .rbrace)
    (apart : Apart text.toList rest) : AddsNoBrace text.toList rest :=
  ⟨[⟨kind, text⟩], List.forall_mem_singleton.2 noBrace, @scan_lexeme rest ⟨kind, text⟩ spells apart⟩

/-! ## Runs of prefix operators -/

/-- The characters of the prefix operators. -/
def isOperatorChar (c : Char) : Bool :=
  c == '+' || c == '-' || c == '&' || c == '*' || c == '!'

theorem eq_of_isOperatorChar {c : Char} (h : isOperatorChar c = true) :
    c = '+' ∨ c = '-' ∨ c = '&' ∨ c = '*' ∨ c = '!' := by
  simpa [isOperatorChar, or_assoc] using h

/-- Each of these characters is an operator by itself. -/
theorem operator_of_char {c : Char} (h : isOperatorChar c = true) :
    ∃ op ∈ operators, op.1.toList = [c] := by
  rcases eq_of_isOperatorChar h with rfl | rfl | rfl | rfl | rfl
  · exact ⟨("+", .plus), by decide, rfl⟩
  · exact ⟨("-", .minus), by decide, rfl⟩
  · exact ⟨("&", .ampersand), by decide, rfl⟩
  · exact ⟨("*", .star), by decide, rfl⟩
  · exact ⟨("!", .bang), by decide, rfl⟩

/-- None of these characters stands in spacing. -/
theorem not_spacing_of_operatorChar {c : Char} (h : isOperatorChar c = true) :
    isBlank c = false ∧ c ≠ '/' ∧ c ≠ '\x7d' := by
  rcases eq_of_isOperatorChar h with rfl | rfl | rfl | rfl | rfl <;> decide

/-- No brace is made of these characters. -/
theorem kind_of_operatorChars : ∀ op ∈ operators, op.1.toList.all isOperatorChar = true →
    op.2 ≠ .lbrace ∧ op.2 ≠ .rbrace := by
  decide

/-- A prefix operator is made of these characters. -/
theorem IsPrefixSpelling.chars {op : String} (h : IsPrefixSpelling op) :
    op.toList ≠ [] ∧ ∀ c ∈ op.toList, isOperatorChar c = true := by
  have all : ∀ p ∈ operators, p.2.isPrefixOperator = true →
      (!p.1.toList.isEmpty && p.1.toList.all isOperatorChar) = true := by
    decide
  unfold IsPrefixSpelling operatorKind at h
  cases found : operators.lookup op with
  | none =>
      rw [found] at h
      exact absurd h (by decide)
  | some kind =>
      rw [found] at h
      simpa using all (op, kind) (mem_of_lookup found) h

section OperatorRun

variable {run rest : List Char}
  (ends : ∀ d ∈ rest.head?, Expr.startsOperand d = true ∨ isBlank d = true)

include ends

/-- No operator at the head of a run goes on behind the run. -/
theorem isPrefix_run {op : String × TokenKind} (known : op ∈ operators)
    (front : op.1.toList <+: run ++ rest) (nonempty : run ≠ []) : op.1.toList <+: run := by
  rcases isPrefix_append front with inside | ⟨d, hd, joined⟩
  · exact inside
  · exfalso
    have tail : d ∈ op.1.toList.tail := by
      obtain ⟨c, cs, rfl⟩ := List.exists_cons_of_ne_nil nonempty
      obtain ⟨behind, split⟩ := joined
      rw [← split]
      simp
    obtain ⟨notBlank, h₁, h₂, h₃, h₄, h₅⟩ :=
      tail_chars op.1 (List.mem_cons_of_mem _ (List.mem_map_of_mem known)) d tail
    rcases ends d hd with operand | blank
    · simp [Expr.startsOperand, h₁, h₂, h₃, h₄, h₅] at operand
    · rw [notBlank] at blank
      exact Bool.false_ne_true blank

/-- The first piece of a run is an operator. -/
theorem firstPiece_run {c : Char} {cs : List Char} (mark : isOperatorChar c = true)
    (text : run = c :: cs) :
    ∃ op ∈ operators, op.1.toList <+: run ∧
      firstPiece c (cs ++ rest) = .lexeme op.2 op.1.toList := by
  subst text
  obtain ⟨single, listed, text⟩ := operator_of_char mark
  have front : single.1.toList <+: c :: (cs ++ rest) := by
    rw [text]
    exact List.prefix_append [c] _
  obtain ⟨op, found⟩ : ∃ op, operatorAt? (c :: (cs ++ rest)) = some op :=
    Option.isSome_iff_exists.1
      (List.find?_isSome.2 ⟨single, listed, List.isPrefixOf_iff_prefix.2 front⟩)
  have known : op ∈ operators := List.mem_of_find?_eq_some found
  have noComment : ¬"//".toList.isPrefixOf (c :: (cs ++ rest)) = true := fun comment =>
    (not_spacing_of_operatorChar mark).2.1
      (List.cons_prefix_cons.1 (List.isPrefixOf_iff_prefix.1 comment)).1.symm
  have inside := isPrefix_run ends known (operatorAt?_isPrefix found) (List.cons_ne_nil _ _)
  refine ⟨op, known, inside, ?_⟩
  rw [firstPiece_mark listed front, markAt, if_neg noComment, found]

/-- Whatever operators a run of these characters is split into, none of them is a brace. -/
theorem adds_run (marks : ∀ c ∈ run, isOperatorChar c = true) : AddsNoBrace run rest := by
  -- behind the first operator there is a shorter run
  induction hn : run.length using Nat.strongRecOn generalizing run with
  | ind n ih =>
    subst hn
    cases run with
    | nil => exact adds_nil rest
    | cons c cs =>
      obtain ⟨op, known, ⟨left, split⟩, first⟩ :=
        firstPiece_run ends (marks c List.mem_cons_self) rfl
      have own : op.1.toList.all isOperatorChar = true := List.all_eq_true.2 fun c mem =>
        marks c (split ▸ List.mem_append_left left mem)
      have others : ∀ c ∈ left, isOperatorChar c = true := fun c mem =>
        marks c (split ▸ List.mem_append_right _ mem)
      obtain ⟨d, more, text⟩ := List.exists_cons_of_ne_nil (operators_ne_nil op known)
      rw [text] at split first
      obtain ⟨rfl, rfl⟩ : d = c ∧ more ++ left = cs := List.cons.inj split
      rw [List.append_assoc] at first
      have behind := ih left.length (by simp) others rfl
      exact (adds_piece first (kind_of_operatorChars op known own)).append behind

end OperatorRun

namespace Fragment

/-! ## Text without braces -/

/-- The fragments stand in one line and hold no brace, whatever follows them and stops a word. -/
structure Inert (gs : List Fragment) : Prop where
  oneLine : '\n' ∉ gs.flatMap chars
  adds : ∀ rest : List Char, (∀ d ∈ rest.head?, isWordChar d = false ∧ d ≠ '.') →
    AddsNoBrace (gs.flatMap chars) rest

variable {gs gs' : List Fragment} {kind : TokenKind} {text : String}

theorem Stopping.chars (h : Stopping gs) {rest : List Char}
    (stops : ∀ d ∈ rest.head?, isWordChar d = false ∧ d ≠ '.') :
    ∀ d ∈ (gs.flatMap chars ++ rest).head?, isWordChar d = false ∧ d ≠ '.' := by
  -- the text behind the fragments as one more of them
  have text : ([.word (String.ofList rest)] : List Fragment).flatMap Fragment.chars = rest := by
    simp [Fragment.chars]
  have whole := h [.word (String.ofList rest)]
  unfold Stops at whole
  rw [List.flatMap_append, text] at whole
  exact whole stops

theorem inert_nil : Inert [] :=
  ⟨List.not_mem_nil, fun rest _ => adds_nil rest⟩

theorem Inert.append (h : Inert gs) (h' : Inert gs') (stopping : Stopping gs') :
    Inert (gs ++ gs') where
  oneLine := by
    rw [List.flatMap_append, List.mem_append, not_or]
    exact ⟨h.oneLine, h'.oneLine⟩
  adds rest stops := by
    rw [List.flatMap_append]
    exact (h.adds _ (stopping.chars stops)).append (h'.adds rest stops)

theorem Inert.afterSpace (h : Inert gs) : Inert (.space :: gs) where
  oneLine := fun mem => h.oneLine (by simpa [chars] using mem)
  adds rest stops := by
    obtain ⟨ks, free, whole⟩ := h.adds rest stops
    refine ⟨ks, free, ?_⟩
    rw [← whole]
    exact scan_blank (by decide)

/-- A word that stands apart from what is behind it. -/
theorem Inert.behindWord (h : Inert gs) (spells : kind.SpellsText text)
    (noBrace : kind ≠ .lbrace ∧ kind ≠ .rbrace)
    (apart : ∀ rest : List Char, (∀ d ∈ rest.head?, isWordChar d = false ∧ d ≠ '.') →
      Apart text.toList (gs.flatMap chars ++ rest)) : Inert (.word text :: gs) where
  oneLine := by
    rw [List.flatMap_cons, List.mem_append, not_or]
    exact ⟨spells.no_line, h.oneLine⟩
  adds rest stops := by
    rw [List.flatMap_cons]
    exact (adds_lexeme spells noBrace (apart rest stops)).append (h.adds rest stops)

theorem ne_brace_of_proper (proper : ∀ op ∈ operators, op.2 ≠ kind) :
    kind ≠ .lbrace ∧ kind ≠ .rbrace :=
  ⟨(proper ("\x7b", .lbrace) (by decide)).symm, (proper ("\x7d", .rbrace) (by decide)).symm⟩

/-- A literal or a word. -/
theorem inert_plain (spells : kind.SpellsText text) (proper : ∀ op ∈ operators, op.2 ≠ kind) :
    Inert [.word text] :=
  inert_nil.behindWord spells (ne_brace_of_proper proper) fun _ stops =>
    apart_of_plain (plain_of_spells spells proper) stops

/-- A word before a space. -/
theorem Inert.wordSpace (h : Inert gs) (spells : kind.SpellsText text)
    (noBrace : kind ≠ .lbrace ∧ kind ≠ .rbrace) : Inert (.word text :: .space :: gs) := by
  refine h.afterSpace.behindWord spells noBrace fun rest _ d hd => ?_
  obtain rfl : ' ' = d := by simpa [chars] using hd
  exact joins_blank (by decide) _

/-- Marks that begin no longer one, and no braces. -/
def IsInertMark (text : String) : Prop :=
  (Lexeme.operator text).IsSolidMark ∧ operatorKind text ≠ .lbrace ∧ operatorKind text ≠ .rbrace

instance (text : String) : Decidable (IsInertMark text) :=
  inferInstanceAs (Decidable (_ ∧ _))

/-- A mark may stand before anything. -/
theorem Inert.mark (h : Inert gs) (inert : IsInertMark text := by decide) :
    Inert (.word text :: gs) := by
  obtain ⟨solid, noBrace⟩ := inert
  exact h.behindWord (spells_mark (List.mem_append_left _ solid.1)) noBrace fun _ _ =>
    solid.isSolid.apart _

theorem IsInertMark.stopping (h : IsInertMark text) (gs : List Fragment) :
    Stopping (.word text :: gs) :=
  stopping_mark (operators_ne_nil _ h.1.1) (operators_stop _ h.1.1) gs

/-- A mark may stand behind anything. -/
theorem Inert.appendMark (h : Inert gs) (h' : Inert gs') (inert : IsInertMark text := by decide) :
    Inert (gs ++ .word text :: gs') :=
  h.append (h'.mark inert) (inert.stopping gs')

/-- An operator with a space on both sides. -/
theorem Inert.spaced (h : Inert gs) (h' : Inert gs') (spells : kind.SpellsText text)
    (noBrace : kind ≠ .lbrace ∧ kind ≠ .rbrace) :
    Inert (gs ++ .space :: .word text :: .space :: gs') :=
  h.append (h'.wordSpace spells noBrace).afterSpace (stopping_space _)

/-- Parts with commas between them. -/
theorem inert_commaSeparated {parts : List (List Fragment)} (h : ∀ part ∈ parts, Inert part) :
    Inert (commaSeparated parts) := by
  induction parts with
  | nil => exact inert_nil
  | cons part parts ih =>
      rw [List.forall_mem_cons] at h
      cases parts with
      | nil => simpa [commaSeparated, List.intercalate] using h.1
      | cons next parts =>
          have comma : IsInertMark "," := by decide
          have := h.1.appendMark (ih h.2).afterSpace comma
          simpa [commaSeparated, List.intercalate, List.intersperse] using this

/-! ## Where a clause begins and ends -/

/-- The fragments begin with a token that is no closing brace, and with no comment. -/
def Opens (gs : List Fragment) : Prop :=
  ∃ c, (gs.flatMap chars).head? = some c ∧ isBlank c = false ∧ c ≠ '/' ∧ c ≠ '\x7d'

/-- The fragments do not end in a space. -/
def Closes (gs : List Fragment) : Prop :=
  ∃ c, (gs.flatMap chars).getLast? = some c ∧ c ≠ ' '

theorem Opens.append (h : Opens gs) (gs' : List Fragment) : Opens (gs ++ gs') := by
  obtain ⟨c, first, starts⟩ := h
  refine ⟨c, ?_, starts⟩
  rw [List.flatMap_append, List.head?_append, first, Option.some_or]

theorem Closes.behind (h : Closes gs) (gs' : List Fragment) : Closes (gs' ++ gs) := by
  obtain ⟨c, last, notSpace⟩ := h
  refine ⟨c, ?_, notSpace⟩
  rw [List.flatMap_append, List.getLast?_append, last, Option.some_or]

theorem closes_word (spells : kind.SpellsText text) : Closes [.word text] := by
  have whole : ([.word text] : List Fragment).flatMap chars = text.toList :=
    List.flatMap_singleton ..
  unfold Closes
  rw [whole]
  cases last : text.toList.getLast? with
  | none =>
      rw [List.getLast?_eq_none_iff] at last
      exact absurd (last ▸ spells : kind.Spells []) (not_spells_nil kind)
  | some c =>
      refine ⟨c, rfl, ?_⟩
      rintro rfl
      exact TokenKind.Spells.ends spells last

theorem closes_mark (gs : List Fragment) (h : IsInertMark text := by decide) :
    Closes (gs ++ [.word text]) :=
  (closes_word (spells_mark (List.mem_append_left _ h.1.1))).behind gs

/-- What begins an operand begins a line. -/
theorem opens_of_startsOperand {c : Char} (first : (gs.flatMap chars).head? = some c)
    (operand : Expr.startsOperand c = true) : Opens gs := by
  refine ⟨c, first, ?_, ?_, ?_⟩
  · simp only [Expr.startsOperand, Bool.or_eq_true, beq_iff_eq] at operand
    rcases operand with (((digit | start) | rfl) | rfl) | rfl
    · exact not_blank_of_isDigit digit
    · exact not_blank_of_isWordStart start
    · rfl
    · rfl
    · rfl
  · rintro rfl
    exact absurd operand (by decide)
  · rintro rfl
    exact absurd operand (by decide)

/-- A literal or a word begins an operand. -/
theorem head_word (spells : kind.SpellsText text) (proper : ∀ op ∈ operators, op.2 ≠ kind)
    (gs : List Fragment) : ∃ c, ((.word text :: gs).flatMap chars).head? = some c ∧
      Expr.startsOperand c = true := by
  obtain ⟨c, cs, hc, -⟩ := first_of_spells spells proper
  have first : ((.word text :: gs).flatMap chars).head? = some c := by
    rw [List.flatMap_cons, chars, hc]
    rfl
  exact ⟨c, first, Expr.word_first spells proper gs c first⟩

theorem opens_word (spells : kind.SpellsText text) (proper : ∀ op ∈ operators, op.2 ≠ kind)
    (gs : List Fragment) : Opens (.word text :: gs) := by
  obtain ⟨c, first, operand⟩ := head_word spells proper gs
  exact opens_of_startsOperand first operand

/-- A stretch within a line that may stand at its beginning and at its end. -/
structure Clause (gs : List Fragment) : Prop where
  inert : Inert gs
  opens : Opens gs
  closes : Closes gs

/-! ## Operators before their operand -/

/-- Prefix operators with nothing between them, and behind them other fragments. These begin
with an operand, or with a space if there are operators. -/
structure Spliced (gs : List Fragment) : Prop where
  split : ∃ ops body, gs = ops.map .word ++ body ∧ (∀ op ∈ ops, IsPrefixSpelling op) ∧
    Inert body ∧ ∃ c, (body.flatMap chars).head? = some c ∧
      (Expr.startsOperand c = true ∨ c = ' ' ∧ ops ≠ [])
  closes : Closes gs

theorem spliced_operand {c : Char} (inert : Inert gs) (first : (gs.flatMap chars).head? = some c)
    (operand : Expr.startsOperand c = true) (closes : Closes gs) : Spliced gs where
  split := ⟨[], gs, rfl, fun _ mem => absurd mem List.not_mem_nil, inert, c, first, .inl operand⟩
  closes := closes

/-- A literal or a word is an operand. -/
theorem spliced_word (spells : kind.SpellsText text) (proper : ∀ op ∈ operators, op.2 ≠ kind) :
    Spliced [.word text] := by
  obtain ⟨c, first, operand⟩ := head_word spells proper []
  exact spliced_operand (inert_plain spells proper) first operand (closes_word spells)

theorem Spliced.append (h : Spliced gs) (inert : Inert gs') (stopping : Stopping gs')
    (closes : Closes gs') : Spliced (gs ++ gs') where
  split := by
    obtain ⟨ops, body, rfl, spelled, inert', c, first, starts⟩ := h.split
    refine ⟨ops, body ++ gs', List.append_assoc .., spelled, inert'.append inert stopping, c, ?_,
      starts⟩
    rw [List.flatMap_append, List.head?_append, first, Option.some_or]
  closes := closes.behind gs

theorem Spliced.behind {op : String} (h : Spliced gs) (spelled : IsPrefixSpelling op) :
    Spliced (.word op :: gs) where
  split := by
    obtain ⟨ops, body, rfl, others, inert, c, first, starts⟩ := h.split
    refine ⟨op :: ops, body, rfl, List.forall_mem_cons.2 ⟨spelled, others⟩, inert, c, first, ?_⟩
    exact starts.imp_right fun starts => ⟨starts.1, List.cons_ne_nil op ops⟩
  closes := h.closes.behind [.word op]

theorem flatMap_operators (ops : List String) :
    (ops.map word).flatMap chars = ops.flatMap String.toList := by
  rw [List.flatMap_map]
  rfl

theorem Spliced.inert (h : Spliced gs) : Inert gs := by
  obtain ⟨ops, body, rfl, spelled, inert, c, first, starts⟩ := h.split
  have marks : ∀ c ∈ ops.flatMap String.toList, isOperatorChar c = true := by
    intro c mem
    obtain ⟨op, inside, mem⟩ := List.mem_flatMap.1 mem
    exact (spelled op inside).chars.2 c mem
  rw [← flatMap_operators] at marks
  constructor
  · rw [List.flatMap_append, List.mem_append, not_or]
    exact ⟨fun mem => absurd (marks _ mem) (by decide), inert.oneLine⟩
  · intro rest stops
    -- no operator goes on into the operand or the space
    have ends : ∀ d ∈ (body.flatMap chars ++ rest).head?,
        Expr.startsOperand d = true ∨ isBlank d = true := by
      intro d hd
      rw [List.head?_append, first] at hd
      obtain rfl : c = d := Option.some.inj hd
      refine starts.imp_right ?_
      rintro ⟨rfl, -⟩
      decide
    rw [List.flatMap_append]
    exact (adds_run ends marks).append (inert.adds rest stops)

theorem Spliced.opens (h : Spliced gs) : Opens gs := by
  obtain ⟨ops, body, rfl, spelled, inert, c, first, starts⟩ := h.split
  cases ops with
  | nil => exact opens_of_startsOperand first (starts.resolve_right fun starts => starts.2 rfl)
  | cons op ops =>
      obtain ⟨nonempty, own⟩ := (spelled op List.mem_cons_self).chars
      obtain ⟨d, ds, text⟩ := List.exists_cons_of_ne_nil nonempty
      obtain ⟨notBlank, notSlash, notBrace⟩ :=
        not_spacing_of_operatorChar (own d (text ▸ List.mem_cons_self))
      refine Opens.append ⟨d, ?_, notBlank, notSlash, notBrace⟩ body
      rw [List.map_cons, List.flatMap_cons, chars, text]
      rfl

theorem Spliced.clause (h : Spliced gs) : Clause gs :=
  ⟨h.inert, h.opens, h.closes⟩

end Fragment

/-! ## Expressions -/

open Fragment

theorem ne_brace_of_binary {op : String} (h : (binaryStrength? op).isSome = true) :
    operatorKind op ≠ .lbrace ∧ operatorKind op ≠ .rbrace := by
  constructor
  · intro brace
    rw [binaryStrength?, brace] at h
    exact absurd h (by decide)
  · intro brace
    rw [binaryStrength?, brace] at h
    exact absurd h (by decide)

namespace Expr

/-- A space that begins the operand of a prefix operator. -/
theorem spliced_spaced {op : String} {gs : List Fragment} (h : Spliced gs)
    (spelled : IsPrefixSpelling op) : Spliced (.word op :: .space :: gs) where
  split := ⟨[op], .space :: gs, rfl, List.forall_mem_singleton.2 spelled,
    h.inert.afterSpace, ' ', rfl, .inr ⟨rfl, List.cons_ne_nil op []⟩⟩
  closes := h.closes.behind [.word op, .space]

mutual

theorem layout_spliced : (e : Expr) → (Node.expr e).Spelled → Spliced e.layout
  | literal kind text, h => by
      have spells : kind.tokenKind.SpellsText text := h.own
      have proper : ∀ op ∈ operators, op.2 ≠ kind.tokenKind := by
        cases kind <;> decide
      exact spliced_word spells proper
  | ident name, h => by
      have spells : TokenKind.SpellsText .ident name := h.own
      exact spliced_word spells (by decide)
  | paren inner, h => by
      have inside := (layout_spliced inner (h.child List.mem_cons_self)).inert
      rw [layout]
      exact spliced_operand (inside.appendMark inert_nil).mark rfl rfl
        (closes_mark (word "(" :: inner.layout))
  | binary op lhs rhs, h => by
      have left := layout_spliced lhs (h.child List.mem_cons_self)
      have right := (layout_spliced rhs
        (h.child (List.mem_cons_of_mem _ List.mem_cons_self))).clause
      have strong : (binaryStrength? op).isSome = true := h.own
      rw [layout, List.append_assoc]
      have operand := right.inert.wordSpace (spells_binary strong) (ne_brace_of_binary strong)
      exact left.append operand.afterSpace (stopping_space _)
        (right.closes.behind [.space, .word op, .space])
  | prefixOp op arg, h => by
      have operand := layout_spliced arg (h.child List.mem_cons_self)
      rw [layout]
      cases arg.isPrefixed with
      | true => exact spliced_spaced operand h.own
      | false => exact operand.behind h.own
  | postIncrement base, h => by
      rw [layout]
      exact (layout_spliced base (h.child List.mem_cons_self)).append inert_nil.mark
        (IsInertMark.stopping (by decide) _) (closes_mark [])
  | postDecrement base, h => by
      rw [layout]
      exact (layout_spliced base (h.child List.mem_cons_self)).append inert_nil.mark
        (IsInertMark.stopping (by decide) _) (closes_mark [])
  | call callee args, h => by
      have inside : Inert (commaSeparated (layoutEach args)) :=
        inert_commaSeparated (layoutEach_inert args fun e mem =>
          h.child (List.mem_cons_of_mem _ (List.mem_map_of_mem mem)))
      rw [layout, List.append_assoc]
      exact (layout_spliced callee (h.child List.mem_cons_self)).append
        (inside.appendMark inert_nil).mark (IsInertMark.stopping (by decide) _)
        (closes_mark (word "(" :: _))
  | subscript base index, h => by
      have inside := (layout_spliced index
        (h.child (List.mem_cons_of_mem _ List.mem_cons_self))).inert
      rw [layout, List.append_assoc, List.cons_append]
      exact (layout_spliced base (h.child List.mem_cons_self)).append
        (inside.appendMark inert_nil).mark (IsInertMark.stopping (by decide) _)
        (closes_mark (word "[" :: _))

theorem layoutEach_inert : (es : List Expr) → (∀ e ∈ es, (Node.expr e).Spelled) →
    ∀ part ∈ layoutEach es, Inert part
  | [], _ => fun _ mem => absurd mem List.not_mem_nil
  | e :: es, h => by
      obtain ⟨first, others⟩ := List.forall_mem_cons.1 h
      exact List.forall_mem_cons.2
        ⟨(layout_spliced e first).inert, layoutEach_inert es others⟩

end

theorem layout_clause {e : Expr} (h : (Node.expr e).Spelled) : Clause e.layout :=
  (layout_spliced e h).clause

end Expr

/-- A word and a space before other fragments. -/
theorem clause_word_space {kind : TokenKind} {text : String} {gs : List Fragment}
    (spells : kind.SpellsText text) (proper : ∀ op ∈ operators, op.2 ≠ kind) (inert : Inert gs)
    (closes : Closes gs) : Clause (word text :: space :: gs) where
  inert := inert.wordSpace spells (ne_brace_of_proper proper)
  opens := opens_word spells proper _
  closes := closes.behind [word text, space]

/-! ## Declarations -/

theorem Declarator.layout_clause {d : Declarator} (h : d.WellFormed) : Clause d.layout := by
  have name : Spliced [word d.name] := spliced_word h (by decide)
  cases d with
  | plain text => exact name.clause
  -- the mark stands before the name as a prefix operator does before its operand
  | pointer text =>
      have star : IsPrefixSpelling "*" := rfl
      exact (name.behind star).clause

theorem Binding.layout_clause {b : Binding} (h : b.declarator.WellFormed)
    (value : ∀ e ∈ b.initial, (Node.expr e).Spelled) : Clause b.layout := by
  obtain ⟨d, initial⟩ := b
  have name : Clause d.layout := Declarator.layout_clause h
  cases initial with
  | none => exact name
  | some e =>
      have value := Expr.layout_clause (value e rfl)
      have equals : TokenKind.assign.SpellsText "=" := spells_mark
      have whole : layout ⟨d, some e⟩ = d.layout ++ space :: word "=" :: space :: e.layout :=
        List.append_assoc ..
      rw [whole]
      exact ⟨name.inert.spaced value.inert equals (by decide), name.opens.append _,
        (value.closes.behind [space, word "=", space]).behind d.layout⟩

theorem VarDecl.layout_clause {d : VarDecl} (own : d.OwnTexts)
    (values : ∀ e ∈ initialValues d.bindings, (Node.expr e).Spelled) : Clause d.layout := by
  obtain ⟨typeName, names⟩ := own
  have parts : Inert (commaSeparated (d.bindings.map Binding.layout)) := by
    refine inert_commaSeparated (List.forall_mem_map.2 fun b mem => ?_)
    exact (Binding.layout_clause (names b mem) fun e initial =>
      values e (mem_initialValues mem initial)).inert
  exact clause_word_space typeName (by decide) (parts.appendMark inert_nil) (closes_mark _)

theorem Param.layout_clause {p : Param} (own : p.OwnTexts)
    (value : ∀ e ∈ initialValues [p.binding], (Node.expr e).Spelled) : Clause p.layout := by
  obtain ⟨typeName, name⟩ := own
  obtain ⟨inert, -, closes⟩ := Binding.layout_clause name fun e initial =>
    value e (mem_initialValues List.mem_cons_self initial)
  exact clause_word_space typeName (by decide) inert closes

/-- The head of a function, to the parenthesis that closes its parameters. -/
theorem FuncDecl.head_clause {d : FuncDecl} (own : d.OwnTexts)
    (values : ∀ e ∈ initialValues (d.params.map Param.binding), (Node.expr e).Spelled) :
    Clause (word d.typeName :: space :: (d.declarator.layout ++
      (word "(" :: commaSeparated (d.params.map Param.layout) ++ [word ")"]))) := by
  obtain ⟨typeName, name, params⟩ := own
  have parts : Inert (commaSeparated (d.params.map Param.layout)) := by
    refine inert_commaSeparated (List.forall_mem_map.2 fun p mem => ?_)
    refine (Param.layout_clause (params p mem) fun e initial => values e ?_).inert
    obtain ⟨b, only, initial⟩ := List.mem_filterMap.1 initial
    obtain rfl := List.mem_singleton.1 only
    exact mem_initialValues (List.mem_map_of_mem mem) initial
  exact clause_word_space typeName (by decide)
    ((Declarator.layout_clause name).inert.appendMark (parts.appendMark inert_nil))
    ((closes_mark (word "(" :: _)).behind _)

/-! ## Heads and ends of statements -/

/-- No operator is of the kind of a reserved word. -/
theorem proper_of_reserved : ∀ p ∈ reservedWords, ∀ op ∈ operators, op.2 ≠ p.2 := by
  decide

section Keywords

variable {kind : TokenKind} {keyword : String} (known : (keyword, kind) ∈ reservedWords)

include known

/-- A keyword alone. -/
theorem clause_keyword : Clause [word keyword] := by
  have spells : kind.SpellsText keyword := spells_mark (List.mem_append_right _ known)
  have proper := proper_of_reserved _ known
  exact ⟨inert_plain spells proper, opens_word spells proper [], closes_word spells⟩

/-- A keyword before other fragments. -/
theorem clause_keyword_space {gs : List Fragment} (inert : Inert gs) (closes : Closes gs) :
    Clause (word keyword :: space :: gs) :=
  clause_word_space (spells_mark (List.mem_append_right _ known)) (proper_of_reserved _ known)
    inert closes

/-- A keyword and a condition in parentheses. -/
theorem clause_guard {test : Expr} (h : (Node.expr test).Spelled) :
    Clause (word keyword :: space :: (word "(" :: test.layout ++ [word ")"])) :=
  clause_keyword_space known ((Expr.layout_clause h).inert.appendMark inert_nil).mark
    (closes_mark (word "(" :: _))

end Keywords

theorem Fragment.Clause.closed {gs : List Fragment} {text : String} (h : Clause gs)
    (mark : IsInertMark text := by decide) : Clause (gs ++ [word text]) where
  inert := h.inert.appendMark inert_nil mark
  opens := h.opens.append _
  closes := closes_mark gs mark

end ProcLang
