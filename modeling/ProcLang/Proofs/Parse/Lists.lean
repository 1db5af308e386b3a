import ProcLang.Proofs.Parse.Form

/-!
# Lists of phrases

The grammar has lists with commas between the items and a closing mark, and lists whose
items follow each other up to an end. Both are phrases over the phrase of an item, and
their parsers read exactly them if the parser of an item does (`commaList_parses`,
`parenList_parses`, `listUntil_parses`). The state of the loops is the items read so
far, last one first.
-/

set_option autoImplicit false

namespace ProcLang

namespace Lexeme

/-- The comma. -/
def comma : Lexeme := ⟨.comma, ","⟩

theorem commaSeparated_singleton (ls : List Lexeme) : commaSeparated [ls] = ls := by
  simp [commaSeparated, List.intercalate]

theorem commaSeparated_cons_cons (ls ls' : List Lexeme) (parts : List (List Lexeme)) :
    commaSeparated (ls :: ls' :: parts) = ls ++ comma :: commaSeparated (ls' :: parts) := by
  simp [commaSeparated, List.intercalate, List.intersperse, comma]

/-- All parts but the last have a comma behind them. -/
theorem commaSeparated_concat (parts : List (List Lexeme)) (ls : List Lexeme) :
    commaSeparated (parts ++ [ls]) = parts.flatMap (· ++ [comma]) ++ ls := by
  induction parts with
  | nil => exact commaSeparated_singleton ls
  | cons part parts ih =>
      cases parts with
      | nil =>
          show commaSeparated (part :: ls :: []) = _
          rw [commaSeparated_cons_cons, commaSeparated_singleton]
          simp
      | cons part' parts =>
          show commaSeparated (part :: part' :: (parts ++ [ls])) = _
          rw [commaSeparated_cons_cons, List.flatMap_cons, List.append_assoc, ← ih]
          simp

theorem comma_isMark : comma.IsMark := by decide

end Lexeme

namespace Form

variable {α : Type}

/-- One item or more with commas between them, and the closing mark. -/
def commaList (A : Form α) (closing : Lexeme) : Form (List α) where
  lexemes as := Lexeme.commaSeparated (as.map A.lexemes) ++ [closing]
  WellFormed as := as ≠ [] ∧ ∀ a ∈ as, A.WellFormed a
  levels as := largest (as.map A.levels)
  MayPrecede _ _ := True

/-- Any number of items with commas between them, and the closing parenthesis. -/
def parenList (A : Form α) : Form (List α) where
  lexemes as := Lexeme.commaSeparated (as.map A.lexemes) ++ [⟨.rparen, ")"⟩]
  WellFormed as := ∀ a ∈ as, A.WellFormed a
  levels as := largest (as.map A.levels)
  MayPrecede _ _ := True

/-- Any number of items, the closing marks, and one of the kinds `last` behind them. -/
def many (A : Form α) (closing : List Lexeme) (last : TokenKind → Prop) :
    Form (List α) where
  lexemes as := as.flatMap A.lexemes ++ closing
  WellFormed as := ∀ a ∈ as, A.WellFormed a
  levels as := largest (as.map A.levels)
  MayPrecede _ := last

theorem levels_le_of_largest {A : Form α} {as : List α} {n : Nat}
    (h : largest (as.map A.levels) ≤ n) : ∀ a ∈ as, A.levels a ≤ n := fun _ ha =>
  largest_le_iff.1 h _ (List.mem_map_of_mem ha)

theorem largest_le_of_levels {A : Form α} {as : List α} {n : Nat}
    (h : ∀ a ∈ as, A.levels a ≤ n) : largest (as.map A.levels) ≤ n :=
  largest_le_iff.2 fun m hm => by
    obtain ⟨a, ha, rfl⟩ := List.mem_map.1 hm
    exact h a ha

/-- The items read so far, each with a comma behind it, lead from `ts` to `mid`. -/
structure ItemsRead (A : Form α) (n : Nat) (ts : List Token) (items : List α)
    (mid : List Token) : Prop where
  reads : Reads ((items.reverse.map A.lexemes).flatMap (· ++ [Lexeme.comma])) ts mid
  wellFormed : ∀ a ∈ items, A.WellFormed a
  levels_le : ∀ a ∈ items, A.levels a ≤ n
  lexical : Lexical mid

variable {A : Form α} {n : Nat} {ts mid rest : List Token} {items : List α} {a : α}

theorem ItemsRead.commaSeparated_reads (h : ItemsRead A n ts items mid)
    (read : Reads (A.lexemes a) mid rest) :
    Reads (Lexeme.commaSeparated ((a :: items).reverse.map A.lexemes)) ts rest := by
  rw [List.reverse_cons, List.map_append, List.map_singleton, Lexeme.commaSeparated_concat]
  exact h.reads.append read

/-- Where one more item has been begun, a list that ends with it has been begun. -/
theorem ItemsRead.begun (h : ItemsRead A n ts items mid) (wf : A.WellFormed a)
    (begins : Begins (A.lexemes a) mid rest) (closing : Lexeme) :
    (A.commaList closing).Begun ts rest := by
  refine ⟨(a :: items).reverse, ⟨by simp, forall_mem_reverse_cons wf h.wellFormed⟩, ?_⟩
  show Begins (Lexeme.commaSeparated ((a :: items).reverse.map A.lexemes) ++ [closing]) ts rest
  rw [List.reverse_cons, List.map_append, List.map_singleton, Lexeme.commaSeparated_concat]
  exact (h.reads.append_begins begins).mono (List.prefix_append _ _)

theorem ItemsRead.snoc (h : ItemsRead A n ts items mid) {behind : List Token}
    (read : A.Read n a mid behind) (comma : Reads [Lexeme.comma] behind rest)
    (lex : Lexical rest) : ItemsRead A n ts (a :: items) rest where
  reads := by
    rw [List.reverse_cons, List.map_append, List.flatMap_append]
    apply h.reads.append
    simpa using read.reads.append comma
  wellFormed := List.forall_mem_cons.2 ⟨read.wellFormed, h.wellFormed⟩
  levels_le := List.forall_mem_cons.2 ⟨read.levels_le, h.levels_le⟩
  lexical := lex

/-- The items read so far, one behind the other, lead from `ts` to `mid`. -/
structure ManyRead (A : Form α) (n : Nat) (ts : List Token) (items : List α)
    (mid : List Token) : Prop where
  reads : Reads (items.reverse.flatMap A.lexemes) ts mid
  wellFormed : ∀ a ∈ items, A.WellFormed a
  levels_le : ∀ a ∈ items, A.levels a ≤ n
  lexical : Lexical mid

/-- The items read so far and their end are the whole list. -/
theorem ManyRead.read (h : ManyRead A n ts items mid) {closing : List Lexeme}
    {last : TokenKind → Prop} (end_reads : Reads closing mid rest) (hlast : last (headKind rest)) :
    (A.many closing last).Read n items.reverse ts rest := by
  refine ⟨h.reads.append end_reads, ?_, ?_, hlast⟩
  · intro a ha
    exact h.wellFormed a (List.mem_reverse.1 ha)
  · apply largest_le_of_levels
    intro a ha
    exact h.levels_le a (List.mem_reverse.1 ha)

/-- Where one more item has been begun, a list that ends with it has been begun. -/
theorem ManyRead.begun (h : ManyRead A n ts items mid) (wf : A.WellFormed a)
    (begins : Begins (A.lexemes a) mid rest) (closing : List Lexeme) (last : TokenKind → Prop) :
    (A.many closing last).Begun ts rest := by
  refine ⟨(a :: items).reverse, forall_mem_reverse_cons wf h.wellFormed, ?_⟩
  show Begins ((a :: items).reverse.flatMap A.lexemes ++ closing) ts rest
  rw [List.reverse_cons, List.flatMap_append, List.flatMap_singleton]
  exact (h.reads.append_begins begins).mono (List.prefix_append _ _)

theorem ManyRead.snoc (h : ManyRead A n ts items mid) (read : A.Read n a mid rest) :
    ManyRead A n ts (a :: items) rest where
  reads := by
    rw [List.reverse_cons, List.flatMap_append, List.flatMap_singleton]
    exact h.reads.append read.reads
  wellFormed := List.forall_mem_cons.2 ⟨read.wellFormed, h.wellFormed⟩
  levels_le := List.forall_mem_cons.2 ⟨read.levels_le, h.levels_le⟩
  lexical := h.lexical.of_reads read.reads

end Form

namespace Parser

open TokenReader Form

variable {α : Type} {n : Nat} {A : Form α} {item : Parser α} {ts rest : List Token}

/-- The loop of a comma list, from any state, finds the items that are still to come. -/
theorem commaList_complete {closing : Lexeme} (hitem : item.Parses A n)
    (different : closing.kind ≠ .comma)
    (follow : ∀ a, A.MayPrecede a .comma ∧ A.MayPrecede a closing.kind)
    (as items : List α) (hne : as ≠ []) (wf : ∀ a ∈ as, A.WellFormed a)
    (levels : ∀ a ∈ as, A.levels a ≤ n) (ts : List Token)
    (reads : Reads (Lexeme.commaSeparated (as.map A.lexemes) ++ [closing]) ts rest) :
    (TokenReader.loop (fun items => do
      let x ← item
      if ← eat closing.kind then return .done (x :: items).reverse
      skip .comma
      return .again (x :: items)) items : Parser (List α)).Yields ts (items.reverse ++ as) rest := by
  induction as generalizing items ts with
  | nil => exact absurd rfl hne
  | cons a as ih =>
      rw [List.forall_mem_cons] at wf levels
      -- the last item stands before the closing mark, every other one before a comma
      cases as with
      | nil =>
          simp only [List.map_cons, List.map_nil, Lexeme.commaSeparated_singleton] at reads
          obtain ⟨mid, hread, hclosing⟩ := reads_append.1 reads
          have head : headKind mid = closing.kind := hclosing.headKind_eq
          apply Yields.done
          refine (hitem.complete a ts mid ⟨hread, wf.1, levels.1, head ▸ (follow a).2⟩).bind ?_
          apply (yields_eat_true hclosing).bind
          rw [← List.reverse_cons]
          exact yields_pure
      | cons a' as =>
          simp only [List.map_cons, Lexeme.commaSeparated_cons_cons, List.append_assoc,
            List.cons_append] at reads
          obtain ⟨mid, hread, behind⟩ := reads_append.1 reads
          obtain ⟨next, hcomma, others⟩ := reads_cons.1 behind
          have head : headKind mid = .comma := hcomma.headKind_eq
          have shorter : next.length < ts.length := by
            have := hread.length_eq
            have := hcomma.length_lt (by simp)
            omega
          refine Yields.again (t := a :: items) ?_ shorter ?_
          · refine (hitem.complete a ts mid ⟨hread, wf.1, levels.1, head ▸ (follow a).1⟩).bind ?_
            apply (yields_eat_false (by rw [head]; exact different.symm)).bind
            exact (yields_skip hcomma).bind yields_pure
          · have := ih (a :: items) (by simp) wf.2 levels.2 next others
            rw [List.reverse_cons, List.append_assoc] at this
            exact this

/-- A comma list is read exactly if its items are. -/
theorem commaList_parses (closing : Lexeme) (hitem : item.Parses A n) (mark : closing.IsMark)
    (different : closing.kind ≠ .comma)
    (follow : ∀ a, A.MayPrecede a .comma ∧ A.MayPrecede a closing.kind) :
    (commaList closing.kind item).Parses (A.commaList closing) n where
  sound ts lex := by
    apply Leads.loop (ItemsRead A n ts) _ ⟨by simp, by simp, by simp, lex⟩
    intro items mid inv
    refine hitem.leads_bind inv.lexical (fun a r read lexr => ?_) (fun a r wf begins => ?_)
    · have whole := inv.commaSeparated_reads read.reads
      refine leads_eat_mark mark lexr (fun r' hclosing lexr' => ?_) (fun _ => ?_)
      · exact ⟨whole.append hclosing,
          ⟨by simp, forall_mem_reverse_cons read.wellFormed inv.wellFormed⟩,
          largest_le_of_levels (forall_mem_reverse_cons read.levels_le inv.levels_le), trivial⟩
      · refine leads_skip_mark Lexeme.comma_isMark lexr (fun r' hcomma lexr' => ?_) ?_
        · have shorter : r'.length < mid.length := by
            have := read.reads.length_eq
            have := hcomma.length_lt (by simp)
            omega
          exact ⟨shorter, inv.snoc read hcomma lexr'⟩
        · exact inv.begun read.wellFormed read.reads.begins closing
    · exact inv.begun wf begins closing
  complete as ts rest read := by
    have levels := levels_le_of_largest read.levels_le
    exact commaList_complete hitem different follow as [] read.wellFormed.1 read.wellFormed.2
      levels ts read.reads

theorem rparen_isMark : (⟨.rparen, ")"⟩ : Lexeme).IsMark := by decide

/-- A list in parentheses is read exactly if its items are and none of them begins with
the closing one. -/
theorem parenList_parses (hitem : item.Parses A n)
    (follow : ∀ a, A.MayPrecede a .comma ∧ A.MayPrecede a .rparen)
    (starts : ∀ a, A.WellFormed a → ∃ l ls, A.lexemes a = l :: ls ∧ l.kind ≠ .rparen) :
    (parenList item).Parses A.parenList n where
  sound ts lex := by
    refine leads_eat_mark rparen_isMark lex (fun r read _ => ?_) (fun _ => ?_)
    · exact ⟨read, by simp [Form.parenList], Nat.zero_le n, trivial⟩
    · have list := commaList_parses ⟨.rparen, ")"⟩ hitem rparen_isMark (by decide) follow
      refine (list.sound ts lex).mono (fun as r read => ?_) ?_
      · exact ⟨read.reads, read.wellFormed.2, read.levels_le, trivial⟩
      · rintro r ⟨as, wf, begins⟩
        exact ⟨as, wf.2, begins⟩
  complete as ts rest read := by
    cases as with
    | nil => exact (yields_eat_true read.reads).bind yields_pure
    | cons a as =>
        obtain ⟨l, ls, hl, hkind⟩ := starts a (read.wellFormed a (List.mem_cons_self ..))
        -- the first item tells the list from an empty one
        have head : headKind ts ≠ .rparen := by
          have reads := read.reads
          cases as with
          | nil =>
              simp only [Form.parenList, List.map_cons, List.map_nil,
                Lexeme.commaSeparated_singleton, hl, List.cons_append] at reads
              rw [reads.headKind_eq]
              exact hkind
          | cons a' as =>
              simp only [Form.parenList, List.map_cons, Lexeme.commaSeparated_cons_cons, hl,
                List.cons_append] at reads
              rw [reads.headKind_eq]
              exact hkind
        apply (yields_eat_false head).bind
        have list := commaList_parses ⟨.rparen, ")"⟩ hitem rparen_isMark (by decide) follow
        exact list.complete _ ts rest ⟨read.reads, ⟨by simp, read.wellFormed⟩, read.levels_le, trivial⟩

/-- A test for the end of a list: the list ends where a token of the kind `stop` is
ahead, and then the closing marks are consumed, with one of the kinds `last` behind. -/
structure Ends (ended : Parser Bool) (stop : TokenKind) (closing : List Lexeme)
    (last : TokenKind → Prop) : Prop where
  leads : ∀ ts, Lexical ts → ended.Leads ts
    (fun finished r => if finished then Reads closing ts r ∧ last (headKind r) else r = ts) fun _ => False
  finished : ∀ ts rest, Reads closing ts rest → last (headKind rest) →
    headKind ts = stop ∧ ended.Yields ts true rest
  goesOn : ∀ ts, headKind ts ≠ stop → ended.Yields ts false ts

variable {ended : Parser Bool} {stop : TokenKind} {closing : List Lexeme}
  {last : TokenKind → Prop}

/-- The loop of a list up to an end, from any state, finds the items still to come. -/
theorem listUntil_complete (hended : ended.Ends stop closing last) (hitem : item.Parses A n)
    (follow : ∀ a, A.MayPrecede a stop)
    (starts : ∀ a, A.WellFormed a → ∃ l ls, A.lexemes a = l :: ls ∧ l.kind ≠ stop ∧
      ∀ b, A.MayPrecede b l.kind)
    (as items : List α) (wf : ∀ a ∈ as, A.WellFormed a) (levels : ∀ a ∈ as, A.levels a ≤ n)
    (ts : List Token) (reads : Reads (as.flatMap A.lexemes ++ closing) ts rest)
    (hlast : last (headKind rest)) :
    (TokenReader.loop (fun items => do
      if ← ended then return .done items.reverse
      let x ← item
      return .again (x :: items)) items : Parser (List α)).Yields ts (items.reverse ++ as) rest := by
  induction as generalizing items ts with
  | nil =>
      refine Yields.done (((hended.finished ts rest reads hlast).2).bind ?_)
      rw [List.append_nil]
      exact yields_pure
  | cons a as ih =>
      rw [List.forall_mem_cons] at wf levels
      rw [List.flatMap_cons, List.append_assoc] at reads
      obtain ⟨mid, hread, others⟩ := reads_append.1 reads
      obtain ⟨l, ls, hl, hkind, -⟩ := starts a wf.1
      have nonempty : A.lexemes a ≠ [] := by simp [hl]
      have head : headKind ts = l.kind := by
        rw [hl] at hread
        exact hread.headKind_eq
      -- behind the item stands the next one or the end
      have followed : A.MayPrecede a (headKind mid) := by
        cases as with
        | nil =>
            rw [(hended.finished mid rest others hlast).1]
            exact follow a
        | cons a' as =>
            obtain ⟨l', ls', hl', -, behind⟩ := starts a' (wf.2 a' (List.mem_cons_self ..))
            rw [List.flatMap_cons, hl', List.cons_append, List.cons_append] at others
            rw [others.headKind_eq]
            exact behind a
      refine Yields.again (t := a :: items) ?_ (hread.length_lt nonempty) ?_
      · apply (hended.goesOn ts (head ▸ hkind)).bind
        exact (hitem.complete a ts mid ⟨hread, wf.1, levels.1, followed⟩).bind yields_pure
      · have := ih (a :: items) wf.2 levels.2 mid others
        rw [List.reverse_cons, List.append_assoc] at this
        exact this

/-- A list up to an end is read exactly if its items are, each has a lexeme, and none
begins like the end. -/
theorem listUntil_parses (hended : ended.Ends stop closing last) (hitem : item.Parses A n)
    (follow : ∀ a, A.MayPrecede a stop)
    (starts : ∀ a, A.WellFormed a → ∃ l ls, A.lexemes a = l :: ls ∧ l.kind ≠ stop ∧
      ∀ b, A.MayPrecede b l.kind) :
    (listUntil ended item).Parses (A.many closing last) n where
  sound ts lex := by
    apply Leads.loop (ManyRead A n ts)
    · intro items mid inv
      rw [leads_bind]
      apply (hended.leads mid inv.lexical).mono
      · intro finished r hover
        cases finished with
        | true => exact inv.read hover.1 hover.2
        | false =>
            obtain rfl : r = mid := hover
            refine hitem.leads_bind inv.lexical (fun a r' read _ => ?_) (fun a r' wf begins => ?_)
            · obtain ⟨l, ls, hl, -⟩ := starts a read.wellFormed
              exact ⟨read.reads.length_lt (by simp [hl]), inv.snoc read⟩
            · exact inv.begun wf begins closing last
      -- the test for the end refuses nothing
      · intro r h
        exact h.elim
    · exact ⟨by simp, by simp, by simp, lex⟩
  complete as ts rest read :=
    listUntil_complete hended hitem follow starts as [] read.wellFormed
      (levels_le_of_largest read.levels_le) ts read.reads read.mayPrecede

end Parser

end ProcLang
