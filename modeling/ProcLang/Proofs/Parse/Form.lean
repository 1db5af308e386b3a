import ProcLang.Proofs.Lexical.Scan
import ProcLang.Proofs.Parse.Leads
import ProcLang.Tree.Nesting

/-!
# Phrases and the parsers that read exactly them

A phrase is a kind of tree with its lexemes, its conditions of well-formedness, the
levels it opens and the tokens that may stand behind it. `p.Parses A n` ties a parser to
a phrase: on tokens that are lexemes of their kinds, whatever `p` returns is a
well-formed tree of at most `n` levels whose lexemes are the tokens consumed; where `p`
refuses, the tokens consumed begin some well-formed tree, with no bound on its levels;
and `p` returns every such tree that stands at the front of the tokens.

The lists of the grammar are treated here once for all phrases.
-/

set_option autoImplicit false

namespace ProcLang

/-- The tokens of `ts` before `rest` are the lexemes `ls`. -/
def Reads (ls : List Lexeme) (ts rest : List Token) : Prop :=
  ∃ front, ts = front ++ rest ∧ front.map Token.toLexeme = ls

/-- The tokens of `ts` before `rest` are a front part of the lexemes `ls`. -/
def Begins (ls : List Lexeme) (ts rest : List Token) : Prop :=
  ∃ front, ts = front ++ rest ∧ front.map Token.toLexeme <+: ls

section Reading

variable {ls ls' : List Lexeme} {l : Lexeme} {ts mid rest : List Token}

@[simp] theorem reads_nil : Reads [] ts rest ↔ ts = rest := by
  simp [Reads]

theorem reads_append :
    Reads (ls ++ ls') ts rest ↔ ∃ mid, Reads ls ts mid ∧ Reads ls' mid rest := by
  constructor
  · rintro ⟨front, rfl, hfront⟩
    obtain ⟨a, b, rfl, ha, hb⟩ := List.map_eq_append_iff.1 hfront
    exact ⟨b ++ rest, ⟨a, by simp, ha⟩, b, rfl, hb⟩
  · rintro ⟨mid, ⟨a, rfl, ha⟩, b, rfl, hb⟩
    exact ⟨a ++ b, by simp, by simp [ha, hb]⟩

theorem reads_cons :
    Reads (l :: ls) ts rest ↔ ∃ mid, Reads [l] ts mid ∧ Reads ls mid rest := by
  rw [← List.singleton_append, reads_append]

theorem reads_singleton : Reads [l] ts rest ↔ ∃ t, ts = t :: rest ∧ t.toLexeme = l := by
  constructor
  · rintro ⟨front, rfl, hfront⟩
    obtain ⟨t, ts', rfl, ht, hts'⟩ := List.map_eq_cons_iff.1 hfront
    obtain rfl := List.map_eq_nil_iff.1 hts'
    exact ⟨t, rfl, ht⟩
  · rintro ⟨t, rfl, ht⟩
    exact ⟨[t], rfl, by simp [ht]⟩

theorem Reads.append (first : Reads ls ts mid) (second : Reads ls' mid rest) :
    Reads (ls ++ ls') ts rest :=
  reads_append.2 ⟨mid, first, second⟩

theorem Reads.cons (first : Reads [l] ts mid) (second : Reads ls mid rest) :
    Reads (l :: ls) ts rest :=
  reads_cons.2 ⟨mid, first, second⟩

theorem Reads.length_eq (h : Reads ls ts rest) : ts.length = ls.length + rest.length := by
  obtain ⟨front, rfl, rfl⟩ := h
  simp

theorem Reads.length_lt (h : Reads ls ts rest) (hls : ls ≠ []) : rest.length < ts.length := by
  have := h.length_eq
  have := List.length_pos_iff.2 hls
  omega

theorem Reads.headKind_eq (h : Reads (l :: ls) ts rest) : headKind ts = l.kind := by
  obtain ⟨mid, hl, -⟩ := reads_cons.1 h
  obtain ⟨t, rfl, rfl⟩ := reads_singleton.1 hl
  rfl

theorem Lexical.of_reads (lex : Lexical ts) (h : Reads ls ts rest) : Lexical rest := by
  obtain ⟨front, rfl, -⟩ := h
  exact fun t ht => lex t (List.mem_append_right _ ht)

/-- Nothing read begins everything. -/
theorem Begins.start : Begins ls ts ts := ⟨[], rfl, List.nil_prefix⟩

theorem Reads.begins (h : Reads ls ts rest) : Begins ls ts rest := by
  obtain ⟨front, rfl, rfl⟩ := h
  exact ⟨front, rfl, List.prefix_rfl⟩

theorem Reads.append_begins (first : Reads ls ts mid) (second : Begins ls' mid rest) :
    Begins (ls ++ ls') ts rest := by
  obtain ⟨a, rfl, rfl⟩ := first
  obtain ⟨b, rfl, hb⟩ := second
  refine ⟨a ++ b, by simp, ?_⟩
  rw [List.map_append]
  exact (List.prefix_append_right_inj _).2 hb

/-- Where something has been read, the first token is the first lexeme. -/
theorem Begins.headKind_eq (h : Begins ls ts rest) :
    ts = rest ∨ ∃ l ls', ls = l :: ls' ∧ headKind ts = l.kind := by
  obtain ⟨front, rfl, hfront⟩ := h
  cases front with
  | nil => exact .inl rfl
  | cons t front =>
      obtain ⟨behind, rfl⟩ := hfront
      exact .inr ⟨t.toLexeme, _, rfl, rfl⟩

theorem Begins.mono (h : Begins ls ts rest) (hls : ls <+: ls') : Begins ls' ts rest := by
  obtain ⟨front, rfl, hfront⟩ := h
  exact ⟨front, rfl, hfront.trans hls⟩

end Reading

/-! ## Phrases -/

/-- A kind of tree as a phrase of the language: the lexemes of a tree, when it is well
formed, the levels it opens, and the kinds of the tokens that may stand behind it. -/
structure Form (α : Type) where
  lexemes : α → List Lexeme
  WellFormed : α → Prop
  levels : α → Nat
  MayPrecede : α → TokenKind → Prop

namespace Form

variable {α : Type} {A : Form α} {n : Nat} {ts mid rest : List Token}

/-- The well-formed tree `a` of at most `n` levels stands in `ts` before `rest`. -/
structure Read (A : Form α) (n : Nat) (a : α) (ts rest : List Token) : Prop where
  reads : Reads (A.lexemes a) ts rest
  wellFormed : A.WellFormed a
  levels_le : A.levels a ≤ n
  mayPrecede : A.MayPrecede a (headKind rest)

/-- The tokens of `ts` before `rest` begin a well-formed tree. -/
def Begun (A : Form α) (ts rest : List Token) : Prop :=
  ∃ a, A.WellFormed a ∧ Begins (A.lexemes a) ts rest

/-- A part read and a part begun are the beginning of a tree that has both in front. -/
theorem begun_of_prefix {a : α} (wf : A.WellFormed a) {ls ls' : List Lexeme}
    (first : Reads ls ts mid) (second : Begins ls' mid rest) (hls : ls ++ ls' <+: A.lexemes a) :
    A.Begun ts rest :=
  ⟨a, wf, (first.append_begins second).mono hls⟩

/-- A part read is the beginning of a tree that has it in front. -/
theorem begun_of_reads {a : α} (wf : A.WellFormed a) {ls : List Lexeme}
    (read : Reads ls ts rest) (hls : ls <+: A.lexemes a) : A.Begun ts rest :=
  ⟨a, wf, read.begins.mono hls⟩

end Form

namespace Parser

open TokenReader

variable {α β : Type} {n : Nat} {ts rest : List Token}

/-- The parser reads exactly the phrase, as far as `n` levels reach. -/
structure Parses (p : Parser α) (A : Form α) (n : Nat) : Prop where
  sound : ∀ ts, Lexical ts → p.Leads ts (fun a r => A.Read n a ts r) (A.Begun ts)
  complete : ∀ a ts rest, A.Read n a ts rest → p.Yields ts a rest

/-- After a part that has been read, the parser goes on behind it; where the part has
been refused, it is begun. -/
theorem Parses.leads_bind {p : Parser β} {B : Form β} {f : β → Parser α}
    {good : α → List Token → Prop} {stuck : List Token → Prop} (h : p.Parses B n)
    (lex : Lexical ts)
    (next : ∀ b r, B.Read n b ts r → Lexical r → (f b).Leads r good stuck)
    (begun : ∀ b r, B.WellFormed b → Begins (B.lexemes b) ts r → stuck r) :
    (p >>= f).Leads ts good stuck := by
  rw [Parser.leads_bind]
  refine (h.sound ts lex).mono (fun b r read => next b r read (lex.of_reads read.reads)) ?_
  rintro r ⟨b, wf, hb⟩
  exact begun b r wf hb

end Parser

/-! ## Single tokens -/

theorem spellsText_of_isListed {kind : TokenKind} (h : kind.isListed = true) (text : String) :
    kind.SpellsText text ↔ (text, kind) ∈ operators ++ reservedWords := by
  rw [TokenKind.SpellsText, spells_of_isListed h, String.ofList_toList]

/-- A lexeme whose kind has no other text. -/
def Lexeme.IsMark (l : Lexeme) : Prop :=
  (l.text, l.kind) ∈ operators ++ reservedWords ∧
    ∀ p ∈ operators ++ reservedWords, p.2 = l.kind → p.1 = l.text

instance (l : Lexeme) : Decidable l.IsMark :=
  inferInstanceAs (Decidable (_ ∧ _))

theorem endOfInput_not_listed : ∀ p ∈ operators ++ reservedWords, p.2 ≠ .endOfInput := by
  decide

namespace Lexeme.IsMark

variable {l : Lexeme}

theorem ne_endOfInput (h : l.IsMark) : l.kind ≠ .endOfInput :=
  endOfInput_not_listed _ h.1

theorem toLexeme_eq (h : l.IsMark) {t : Token} (ht : t.kind.SpellsText t.text)
    (hkind : t.kind = l.kind) : t.toLexeme = l := by
  obtain ⟨listed, unique⟩ := h
  rw [hkind, spellsText_of_isListed (listed_kinds _ listed)] at ht
  have htext := unique _ ht rfl
  obtain ⟨⟨kind, text⟩, span⟩ := t
  obtain ⟨kind', text'⟩ := l
  cases hkind
  cases htext
  rfl

end Lexeme.IsMark

namespace Parser

open TokenReader

variable {α : Type} {ts rest : List Token} {good : α → List Token → Prop}
  {stuck : List Token → Prop} {l : Lexeme}

theorem reads_of_mark (mark : l.IsMark) (lex : Lexical ts) {t : Token} (hts : ts = t :: rest)
    (hkind : t.kind = l.kind) : Reads [l] ts rest := by
  subst hts
  exact reads_singleton.2 ⟨t, rfl, mark.toLexeme_eq (lex t (List.mem_cons_self ..)) hkind⟩

/-- A mark that is wanted has been read, or nothing has. -/
theorem leads_skip_mark (mark : l.IsMark) (lex : Lexical ts) {f : Unit → Parser α}
    (yes : ∀ r, Reads [l] ts r → Lexical r → (f ()).Leads r good stuck) (no : stuck ts) :
    (skip l.kind >>= f).Leads ts good stuck := by
  rw [leads_bind, leads_skip mark.ne_endOfInput]
  refine ⟨fun t r hts hkind => ?_, fun _ => no⟩
  have read := reads_of_mark mark lex hts hkind
  exact yes r read (lex.of_reads read)

/-- A mark that may stand here has been read, or another token is ahead. -/
theorem leads_eat_mark (mark : l.IsMark) (lex : Lexical ts) {f : Bool → Parser α}
    (yes : ∀ r, Reads [l] ts r → Lexical r → (f true).Leads r good stuck)
    (no : headKind ts ≠ l.kind → (f false).Leads ts good stuck) :
    (eat l.kind >>= f).Leads ts good stuck := by
  rw [leads_bind, leads_eat mark.ne_endOfInput]
  refine ⟨fun t r hts hkind => ?_, no⟩
  have read := reads_of_mark mark lex hts hkind
  exact yes r read (lex.of_reads read)

/-- A token of the wanted kind has been read, or nothing has. -/
theorem leads_expect_text {kind : TokenKind} (proper : kind ≠ .endOfInput) (lex : Lexical ts)
    {f : String → Parser α}
    (yes : ∀ text r, Reads [⟨kind, text⟩] ts r → kind.SpellsText text → Lexical r →
      (f text).Leads r good stuck)
    (no : stuck ts) : (expect kind >>= f).Leads ts good stuck := by
  rw [leads_bind, leads_expect proper]
  refine ⟨?_, fun _ => no⟩
  rintro t r rfl rfl
  have read : Reads [⟨t.kind, t.text⟩] (t :: r) r := reads_singleton.2 ⟨t, rfl, rfl⟩
  exact yes t.text r read (lex t (List.mem_cons_self ..)) (lex.of_reads read)

theorem yields_skip (read : Reads [l] ts rest) : (skip l.kind : Parser Unit).Yields ts () rest := by
  obtain ⟨t, rfl, rfl⟩ := reads_singleton.1 read
  exact Yields.taken (only_self _) yields_pure

theorem yields_eat_true (read : Reads [l] ts rest) :
    (eat l.kind : Parser Bool).Yields ts true rest := by
  obtain ⟨t, rfl, rfl⟩ := reads_singleton.1 read
  exact Yields.taken (only_self _) yields_pure

theorem yields_expect (read : Reads [l] ts rest) :
    (expect l.kind : Parser String).Yields ts l.text rest := by
  obtain ⟨t, rfl, rfl⟩ := reads_singleton.1 read
  exact Yields.taken (only_self _) yields_pure

end Parser

end ProcLang
