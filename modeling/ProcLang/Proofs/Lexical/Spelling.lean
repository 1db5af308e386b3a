import ProcLang.Lexical.Pattern
import ProcLang.Lexical.Tiling
import ProcLang.Proofs.FrontParts

/-!
# The lexemes found are the lexemes spelled

In one direction, a lexeme that is found at the head of a text spells its kind
(`firstPiece_spells`). In the other, the text of a lexeme is found again wherever it
stands before a character that does not join it (`firstPiece_of_spells`).
-/

set_option autoImplicit false

namespace ProcLang

/-! ## What is found is spelled -/

/-- The complete units after a quote are units. -/
theorem quotedRun_units (quote : Char) (cs : List Char) :
    ∃ units : List (List Char), (∀ u ∈ units, QuotedUnit quote u) ∧
      quotedRun quote cs = units.flatten := by
  fun_induction quotedRun quote cs with
  | case1 => exact ⟨[], by simp⟩
  | case2 c plain => exact ⟨[[c]], by simpa using QuotedUnit.plain c plain, by simp⟩
  | case3 c plain => exact ⟨[], by simp⟩
  | case4 cs => exact ⟨[], by simp⟩
  | case5 d cs escapable ih =>
      obtain ⟨units, hunits, hrun⟩ := ih
      refine ⟨['\\', d] :: units, ?_, by simp [hrun]⟩
      exact List.forall_mem_cons.2 ⟨.escaped d escapable, hunits⟩
  | case6 c d cs unescaped plain ih =>
      obtain ⟨units, hunits, hrun⟩ := ih
      refine ⟨[c] :: units, ?_, by simp [hrun]⟩
      exact List.forall_mem_cons.2 ⟨.plain c plain, hunits⟩
  | case7 => exact ⟨[], by simp⟩

theorem numberAt_spells {c : Char} {cs text : List Char} {kind : TokenKind}
    (digit : c.isDigit = true) (found : numberAt (c :: cs) = .lexeme kind text) :
    kind.Spells text := by
  have whole : IsDigits ((c :: cs).takeWhile Char.isDigit) :=
    ⟨by simp [digit], List.all_eq_true.1 List.all_takeWhile⟩
  unfold numberAt at found
  simp only at found
  split at found
  · split at found
    · obtain ⟨rfl, rfl⟩ := Piece.lexeme.inj found
      exact whole
    next rest point nonempty =>
      obtain ⟨rfl, rfl⟩ := Piece.lexeme.inj found
      exact ⟨_, _, whole, ⟨nonempty, List.all_eq_true.1 List.all_takeWhile⟩, rfl⟩
  · obtain ⟨rfl, rfl⟩ := Piece.lexeme.inj found
    exact whole

/-- Kinds whose texts are listed one by one. -/
def TokenKind.isListed : TokenKind → Bool
  | intLit | floatLit | charLit | stringLit | ident => false
  | _ => true

theorem spells_of_isListed {kind : TokenKind} (h : kind.isListed = true) (cs : List Char) :
    kind.Spells cs ↔ (String.ofList cs, kind) ∈ operators ++ reservedWords := by
  cases kind <;> first | exact Iff.rfl | exact absurd h (by decide)

theorem listed_kinds : ∀ p ∈ operators ++ reservedWords, p.2.isListed = true := by
  decide

/-- A listed text spells its kind. -/
theorem spells_of_listed {text : List Char} {kind : TokenKind}
    (listed : (String.ofList text, kind) ∈ operators ++ reservedWords) : kind.Spells text :=
  (spells_of_isListed (listed_kinds _ listed) text).2 listed

theorem mem_of_lookup {word : String} {kind : TokenKind} {table : List (String × TokenKind)}
    (h : table.lookup word = some kind) : (word, kind) ∈ table := by
  rw [List.lookup_eq_some_iff] at h
  obtain ⟨front, back, rfl, -⟩ := h
  simp

theorem wordAt_spells {c : Char} {cs text : List Char} {kind : TokenKind}
    (start : isWordStart c = true) (found : wordAt (c :: cs) = .lexeme kind text) :
    kind.Spells text := by
  obtain ⟨rfl, rfl⟩ := Piece.lexeme.inj found
  unfold wordKind
  cases hlookup : reservedWords.lookup (String.ofList ((c :: cs).takeWhile isWordChar)) with
  | some kind => exact spells_of_listed (List.mem_append_right _ (mem_of_lookup hlookup))
  | none =>
      have word : isWordChar c = true := isWordChar_of_isWordStart start
      refine ⟨?_, ?_⟩
      · rw [List.takeWhile_cons_of_pos word]
        exact ⟨start, List.all_eq_true.1 List.all_takeWhile⟩
      · intro hmem
        obtain ⟨p, hp, hword⟩ := List.mem_map.1 hmem
        have differs := List.lookup_eq_none_iff.1 hlookup p hp
        rw [hword] at differs
        simp at differs

theorem stringAfter_spells {cs text : List Char} {kind : TokenKind}
    (found : stringAfter cs = .lexeme kind text) : kind.Spells text := by
  obtain ⟨units, hunits, hrun⟩ := quotedRun_units '"' cs
  unfold stringAfter at found
  simp only at found
  split at found
  · obtain ⟨rfl, rfl⟩ := Piece.lexeme.inj found
    exact ⟨units, hunits, by rw [hrun]⟩
  · exact absurd found (by simp)

theorem charAfter_spells {cs text : List Char} {kind : TokenKind}
    (found : charAfter cs = .lexeme kind text) : kind.Spells text := by
  unfold charAfter at found
  split at found
  next c rest =>
    split at found
    · exact absurd found (by simp)
    next escapable =>
      obtain ⟨rfl, rfl⟩ := Piece.lexeme.inj found
      exact ⟨['\\', c], .escaped c escapable, rfl⟩
  next c rest _ =>
    split at found
    next plain =>
      obtain ⟨rfl, rfl⟩ := Piece.lexeme.inj found
      exact ⟨[c], .plain c plain, rfl⟩
    · exact absurd found (by simp)
  next => exact absurd found (by simp)

theorem markAt_spells {c : Char} {cs text : List Char} {kind : TokenKind}
    (found : markAt c cs = .lexeme kind text) : kind.Spells text := by
  unfold markAt at found
  split at found
  · exact absurd found (by simp)
  · split at found
    next spelling kind hop =>
      obtain ⟨rfl, rfl⟩ := Piece.lexeme.inj found
      refine spells_of_listed (List.mem_append_left _ ?_)
      rw [String.ofList_toList]
      exact List.mem_of_find?_eq_some hop
    next => exact absurd found (by simp)

/-- A lexeme at the head of a text spells its kind. -/
theorem firstPiece_spells {c : Char} {cs text : List Char} {kind : TokenKind}
    (found : firstPiece c cs = .lexeme kind text) : kind.Spells text := by
  unfold firstPiece at found
  split at found
  · exact absurd found (by simp)
  split at found
  next digit => exact numberAt_spells digit found
  split at found
  next start => exact wordAt_spells start found
  split at found
  · exact stringAfter_spells found
  split at found
  · exact charAfter_spells found
  · exact markAt_spells found

/-- The lexemes among the pieces of a text spell their kinds. -/
theorem pieces_spells {cs text : List Char} {kind : TokenKind}
    (h : Piece.lexeme kind text ∈ pieces cs) : kind.Spells text := by
  fun_induction pieces cs with
  | case1 => simp at h
  | case2 c cs p ih =>
      rcases List.mem_cons.1 h with first | others
      · exact firstPiece_spells first.symm
      · exact ih others

/-! ## Blanks and line feeds in lexemes -/

theorem eq_of_isBlank {c : Char} (h : isBlank c = true) :
    c = ' ' ∨ c = '\t' ∨ c = '\n' ∨ c = '\r' ∨ c = '\x0c' := by
  simpa [isBlank, or_assoc] using h

theorem not_blank_of_isDigit {c : Char} (h : c.isDigit = true) : isBlank c = false := by
  cases hblank : isBlank c with
  | false => rfl
  | true =>
      rcases eq_of_isBlank hblank with rfl | rfl | rfl | rfl | rfl <;> exact absurd h (by decide)

theorem not_blank_of_isWordStart {c : Char} (h : isWordStart c = true) : isBlank c = false := by
  cases hblank : isBlank c with
  | false => rfl
  | true =>
      rcases eq_of_isBlank hblank with rfl | rfl | rfl | rfl | rfl <;> exact absurd h (by decide)

/-- No unit goes over a line. -/
theorem QuotedUnit.no_line {quote : Char} {unit : List Char} (h : QuotedUnit quote unit) :
    '\n' ∉ unit := by
  cases h with
  | plain c plain =>
      intro mem
      obtain rfl := List.mem_singleton.1 mem
      simp [isPlain] at plain
  | escaped c escapable => simp [Ne.symm escapable]

theorem not_blank_of_isWordChar {c : Char} (h : isWordChar c = true) : isBlank c = false := by
  cases hblank : isBlank c with
  | false => rfl
  | true =>
      rcases eq_of_isBlank hblank with rfl | rfl | rfl | rfl | rfl <;> exact absurd h (by decide)

theorem IsWord.no_blank {cs : List Char} (h : IsWord cs) : ∀ c ∈ cs, isBlank c = false := by
  cases cs with
  | nil => exact h.elim
  | cons c cs =>
      exact List.forall_mem_cons.2 ⟨not_blank_of_isWordStart h.1, fun d mem =>
        not_blank_of_isWordChar (h.2 d mem)⟩

theorem listed_no_blank : ∀ p ∈ operators ++ reservedWords,
    p.1.toList.all (fun c => !isBlank c) = true := by
  decide

/-- A lexeme holds no blank, or it stands between two quotes and holds no line feed. -/
theorem TokenKind.Spells.no_blank_or_quoted {kind : TokenKind} {cs : List Char}
    (h : kind.Spells cs) :
    (∀ c ∈ cs, isBlank c = false) ∨
      ∃ quote inner, (quote = '"' ∨ quote = '\'') ∧ '\n' ∉ inner ∧
        cs = quote :: inner ++ [quote] := by
  cases hlisted : kind.isListed with
  | true =>
      rw [spells_of_isListed hlisted] at h
      have all := listed_no_blank _ h
      rw [String.toList_ofList] at all
      exact .inl (by simpa using all)
  | false =>
      cases kind with
      | intLit => exact .inl fun c mem => not_blank_of_isDigit (h.2 c mem)
      | floatLit =>
          obtain ⟨whole, fraction, hwhole, hfraction, rfl⟩ := h
          have before (c : Char) (mem : c ∈ whole) := not_blank_of_isDigit (hwhole.2 c mem)
          have behind (c : Char) (mem : c ∈ fraction) := not_blank_of_isDigit (hfraction.2 c mem)
          exact .inl (List.forall_mem_append.2 ⟨before, List.forall_mem_cons.2 ⟨rfl, behind⟩⟩)
      | charLit =>
          obtain ⟨unit, hunit, rfl⟩ := h
          exact .inr ⟨'\'', unit, .inr rfl, hunit.no_line, rfl⟩
      | stringLit =>
          obtain ⟨units, hunits, rfl⟩ := h
          refine .inr ⟨'"', units.flatten, .inl rfl, fun mem => ?_, rfl⟩
          obtain ⟨unit, hunit, mem⟩ := List.mem_flatten.1 mem
          exact (hunits unit hunit).no_line mem
      | ident => exact .inl (IsWord.no_blank h.1)
      | _ => exact absurd hlisted (by decide)

/-- No lexeme goes over a line. -/
theorem TokenKind.Spells.no_line {kind : TokenKind} {cs : List Char} (h : kind.Spells cs) :
    '\n' ∉ cs := by
  intro mem
  rcases h.no_blank_or_quoted with solid | ⟨quote, inner, isQuote, noLine, rfl⟩
  · exact absurd (solid _ mem) (by decide)
  · rcases isQuote with rfl | rfl
    · simp [noLine] at mem
    · simp [noLine] at mem

/-- No lexeme ends in a space. -/
theorem TokenKind.Spells.ends {kind : TokenKind} {cs : List Char} (h : kind.Spells cs) :
    cs.getLast? ≠ some ' ' := by
  intro last
  rcases h.no_blank_or_quoted with solid | ⟨quote, inner, isQuote, -, rfl⟩
  · exact absurd (solid _ (List.mem_of_getLast? last)) (by decide)
  · rw [List.getLast?_concat] at last
    rcases isQuote with rfl | rfl
    · exact absurd last (by decide)
    · exact absurd last (by decide)

theorem operators_no_line : ∀ op ∈ operators, '\n' ∉ op.1.toList := by
  decide

/-! ## What is no lexeme -/

theorem numberAt_isLexeme (cs : List Char) : ∃ kind text, numberAt cs = .lexeme kind text := by
  unfold numberAt
  simp only
  split
  · split
    · exact ⟨_, _, rfl⟩
    · exact ⟨_, _, rfl⟩
  · exact ⟨_, _, rfl⟩

theorem stringAfter_cases (cs : List Char) :
    (∃ text, stringAfter cs = .lexeme .stringLit text) ∨
      stringAfter cs = .stray ('"' :: quotedRun '"' cs) := by
  unfold stringAfter
  simp only
  split
  · exact .inl ⟨_, rfl⟩
  · exact .inr rfl

theorem charAfter_cases (cs : List Char) :
    (∃ text, charAfter cs = .lexeme .charLit text) ∨ charAfter cs = .stray ['\''] := by
  unfold charAfter
  split
  · split
    · exact .inr rfl
    · exact .inl ⟨_, rfl⟩
  · split
    · exact .inl ⟨_, rfl⟩
    · exact .inr rfl
  · exact .inr rfl

theorem markAt_cases (c : Char) (cs : List Char) :
    ("//".toList <+: c :: cs ∧ markAt c cs = .spacing ((c :: cs).takeWhile (· ≠ '\n'))) ∨
      (∃ kind text, markAt c cs = .lexeme kind text) ∨ markAt c cs = .stray [c] := by
  unfold markAt
  split
  next comment => exact .inl ⟨List.isPrefixOf_iff_prefix.1 comment, rfl⟩
  next =>
    split
    · exact .inr (.inl ⟨_, _, rfl⟩)
    · exact .inr (.inr rfl)

/-- Spacing is a run of blanks, or a comment up to the line feed. -/
theorem firstPiece_spacing {c : Char} {cs text : List Char}
    (found : firstPiece c cs = .spacing text) :
    (isBlank c = true ∧ text = c :: cs.takeWhile isBlank) ∨
      ("//".toList <+: c :: cs ∧ text = (c :: cs).takeWhile (· ≠ '\n')) := by
  unfold firstPiece at found
  split at found
  next blank => exact .inl ⟨blank, (Piece.spacing.inj found).symm⟩
  split at found
  · obtain ⟨kind, number, h⟩ := numberAt_isLexeme (c :: cs)
    exact absurd (h.symm.trans found) (by simp)
  split at found
  · exact absurd found (by simp [wordAt])
  split at found
  · rcases stringAfter_cases cs with ⟨literal, h⟩ | h
    · exact absurd (h.symm.trans found) (by simp)
    · exact absurd (h.symm.trans found) (by simp)
  split at found
  · rcases charAfter_cases cs with ⟨literal, h⟩ | h
    · exact absurd (h.symm.trans found) (by simp)
    · exact absurd (h.symm.trans found) (by simp)
  · rcases markAt_cases c cs with ⟨comment, h⟩ | ⟨kind, mark, h⟩ | h
    · exact .inr ⟨comment, (Piece.spacing.inj (h.symm.trans found)).symm⟩
    · exact absurd (h.symm.trans found) (by simp)
    · exact absurd (h.symm.trans found) (by simp)

/-- Where two slashes stand, a comment goes on to the end of the line. -/
theorem firstPiece_comment {c : Char} {cs : List Char} (comment : "//".toList <+: c :: cs) :
    firstPiece c cs = .spacing ((c :: cs).takeWhile (· ≠ '\n')) := by
  obtain rfl : '/' = c := (List.cons_prefix_cons.1 comment).1
  have mark : firstPiece '/' cs = markAt '/' cs := rfl
  rw [mark, markAt, if_pos (List.isPrefixOf_iff_prefix.2 comment)]

/-- Stray text is a quote with the complete units behind it, or one character. -/
theorem firstPiece_stray_cases {c : Char} {cs text : List Char}
    (found : firstPiece c cs = .stray text) :
    (c = '"' ∧ text = '"' :: quotedRun '"' cs) ∨ (c ≠ '"' ∧ isBlank c = false ∧ text = [c]) := by
  unfold firstPiece at found
  split at found
  · exact absurd found (by simp)
  next notBlank =>
  rw [Bool.not_eq_true] at notBlank
  split at found
  · obtain ⟨kind, number, h⟩ := numberAt_isLexeme (c :: cs)
    exact absurd (h.symm.trans found) (by simp)
  split at found
  · exact absurd found (by simp [wordAt])
  split at found
  next isQuote =>
    rcases stringAfter_cases cs with ⟨literal, h⟩ | h
    · exact absurd (h.symm.trans found) (by simp)
    · exact .inl ⟨isQuote, (Piece.stray.inj (h.symm.trans found)).symm⟩
  next notQuote =>
  refine .inr ⟨notQuote, notBlank, ?_⟩
  split at found
  next isQuote =>
    rcases charAfter_cases cs with ⟨literal, h⟩ | h
    · exact absurd (h.symm.trans found) (by simp)
    · rw [isQuote]
      exact (Piece.stray.inj (h.symm.trans found)).symm
  · rcases markAt_cases c cs with ⟨comment, h⟩ | ⟨kind, mark, h⟩ | h
    · exact absurd (h.symm.trans found) (by simp)
    · exact absurd (h.symm.trans found) (by simp)
    · exact (Piece.stray.inj (h.symm.trans found)).symm

/-- Stray text does not go over a line. -/
theorem firstPiece_stray {c : Char} {cs text : List Char} (found : firstPiece c cs = .stray text) :
    '\n' ∉ text := by
  rcases firstPiece_stray_cases found with ⟨-, rfl⟩ | ⟨-, notBlank, rfl⟩
  · obtain ⟨units, hunits, hrun⟩ := quotedRun_units '"' cs
    rw [hrun]
    simpa using fun u hu => (hunits u hu).no_line
  · intro mem
    obtain rfl := List.mem_singleton.1 mem
    exact absurd notBlank (by decide)

/-! ## What is spelled is found -/

/-- Whether `d` behind a lexeme with the text `cs` may belong to it or make another
lexeme of it. A point is taken to join a number. -/
def joins (cs : List Char) (d : Char) : Bool :=
  match cs with
  | [] => false
  | c :: _ =>
      if c.isDigit then d.isDigit || d == '.'
      else if isWordStart c then isWordChar d
      else ("//" :: operators.map Prod.fst).any fun longer => (cs ++ [d]).isPrefixOf longer.toList

/-- `rest` does not begin with a character that joins `cs`. -/
def Apart (cs rest : List Char) : Prop :=
  ∀ d ∈ rest.head?, joins cs d = false

theorem apart_nil (cs : List Char) : Apart cs [] :=
  fun d mem => absurd mem (Option.not_mem_none d)

theorem not_digit_of_isWordStart {c : Char} (h : isWordStart c = true) : c.isDigit = false := by
  apply Bool.eq_false_iff.2
  intro hdigit
  -- the characters by their codes: the digits end before the letters and the underscore
  have digit : c.toNat ≤ 57 := (Char.isDigit_iff_toNat.1 hdigit).2
  have start : (decide (65 ≤ c.val ∧ c.val ≤ 90) || (decide (97 ≤ c.val) && decide (c.val ≤ 122))
      || c == '_') = true := h
  simp only [Bool.or_eq_true, Bool.and_eq_true, decide_eq_true_eq, beq_iff_eq,
    UInt32.le_iff_toNat_le, Char.toNat_val] at start
  rcases start with (upper | lower) | rfl
  · have : 65 ≤ c.toNat := upper.1
    omega
  · have : 97 ≤ c.toNat := lower.1
    omega
  · exact absurd digit (by decide)

variable {c : Char} {cs rest : List Char} {kind : TokenKind}

theorem firstPiece_digits (digits : IsDigits (c :: cs)) (apart : Apart (c :: cs) rest) :
    firstPiece c (cs ++ rest) = .lexeme .intLit (c :: cs) := by
  have digit : c.isDigit = true := digits.2 c (List.mem_cons_self ..)
  have stops (d : Char) (hd : d ∈ rest.head?) : d.isDigit = false ∧ d ≠ '.' := by
    have := apart d hd
    simpa [joins, digit] using this
  obtain ⟨hwhole, hrest⟩ := takeWhile_run digits.2 fun d hd => (stops d hd).1
  -- behind the digits no point follows, so they are not the front of a decimal number
  unfold firstPiece
  rw [if_neg (by rw [not_blank_of_isDigit digit]; simp), if_pos digit, ← List.cons_append]
  unfold numberAt
  simp only [hwhole, hrest]
  split
  next more => exact absurd rfl (stops '.' rfl).2
  next => rfl

theorem firstPiece_decimal {whole fraction : List Char} (hwhole : IsDigits whole)
    (hfraction : IsDigits fraction) (htext : c :: cs = whole ++ '.' :: fraction)
    (apart : Apart (c :: cs) rest) : firstPiece c (cs ++ rest) = .lexeme .floatLit (c :: cs) := by
  have digit : c.isDigit = true := by
    cases whole with
    | nil => exact absurd rfl hwhole.1
    | cons d ds =>
        obtain ⟨rfl, -⟩ := List.cons.inj htext
        exact hwhole.2 c (List.mem_cons_self ..)
  have stops (d : Char) (hd : d ∈ rest.head?) : d.isDigit = false := by
    have := apart d hd
    simp only [joins, digit, if_true, Bool.or_eq_false_iff] at this
    exact this.1
  unfold firstPiece
  rw [if_neg (by rw [not_blank_of_isDigit digit]; simp), if_pos digit, ← List.cons_append, htext,
    List.append_assoc, List.cons_append]
  have point : ∀ d ∈ ('.' :: (fraction ++ rest)).head?, d.isDigit = false := by
    simp
  obtain ⟨htake, hdrop⟩ := takeWhile_run hwhole.2 point
  obtain ⟨htake', -⟩ := takeWhile_run hfraction.2 stops
  unfold numberAt
  simp only [htake, hdrop, htake', if_neg hfraction.1]

theorem firstPiece_word (word : IsWord (c :: cs)) (hkind : wordKind (String.ofList (c :: cs)) = kind)
    (apart : Apart (c :: cs) rest) : firstPiece c (cs ++ rest) = .lexeme kind (c :: cs) := by
  obtain ⟨start, others⟩ := word
  have notDigit := not_digit_of_isWordStart start
  have stops (d : Char) (hd : d ∈ rest.head?) : isWordChar d = false := by
    have := apart d hd
    simpa [joins, notDigit, start] using this
  have first : isWordChar c = true := isWordChar_of_isWordStart start
  obtain ⟨htake, -⟩ := takeWhile_run (List.forall_mem_cons.2 ⟨first, others⟩) stops
  unfold firstPiece
  rw [if_neg (by rw [not_blank_of_isWordStart start]; simp), if_neg (by rw [notDigit]; simp),
    if_pos start, ← List.cons_append]
  unfold wordAt
  simp only [htake, hkind]

/-- A unit is taken as a whole. -/
theorem quotedRun_unit {quote : Char} {unit : List Char} (hunit : QuotedUnit quote unit)
    (rest : List Char) : quotedRun quote (unit ++ rest) = unit ++ quotedRun quote rest := by
  cases hunit with
  | plain d plain =>
      have escapes : d ≠ '\\' := by
        rintro rfl
        simp [isPlain] at plain
      -- a run is read two characters at a time
      cases rest with
      | nil => simp [quotedRun, plain]
      | cons d' rest => simp [quotedRun, plain, escapes]
  | escaped d escapable => simp [quotedRun, escapable]

/-- Complete units are taken as a whole. -/
theorem quotedRun_units_append {quote : Char} {units : List (List Char)}
    (hunits : ∀ u ∈ units, QuotedUnit quote u) (rest : List Char) :
    quotedRun quote (units.flatten ++ rest) = units.flatten ++ quotedRun quote rest := by
  induction units with
  | nil => rfl
  | cons u units ih =>
      rw [List.forall_mem_cons] at hunits
      rw [List.flatten_cons, List.append_assoc, quotedRun_unit hunits.1, ih hunits.2,
        List.append_assoc]

/-- Complete units before a quote are taken, and the quote is not. -/
theorem quotedRun_of_units {quote : Char} (hquote : quote ≠ '\\') {units : List (List Char)}
    (hunits : ∀ u ∈ units, QuotedUnit quote u) (rest : List Char) :
    quotedRun quote (units.flatten ++ quote :: rest) = units.flatten := by
  have stops : quotedRun quote (quote :: rest) = [] := by
    cases rest with
    | nil => simp [quotedRun, isPlain]
    | cons d rest => simp [quotedRun, isPlain, hquote]
  rw [quotedRun_units_append hunits, stops, List.append_nil]

theorem firstPiece_quote {d : Char} (mark : d = '"' ∨ d = '\'') (cs : List Char) :
    firstPiece d cs = if d = '"' then stringAfter cs else charAfter cs := by
  rcases mark with rfl | rfl
  · rfl
  · rfl

theorem firstPiece_string {units : List (List Char)} (hunits : ∀ u ∈ units, QuotedUnit '"' u)
    (rest : List Char) :
    firstPiece '"' (units.flatten ++ ['"'] ++ rest) =
      .lexeme .stringLit ('"' :: units.flatten ++ ['"']) := by
  rw [firstPiece_quote (.inl rfl), if_pos rfl, List.append_assoc, List.singleton_append]
  unfold stringAfter
  simp only [quotedRun_of_units (by decide) hunits, List.drop_left]

/-- A unit and the closing quote behind it are a character literal. -/
theorem charAfter_of_unit {unit : List Char} (hunit : QuotedUnit '\'' unit) (rest : List Char) :
    charAfter (unit ++ ['\''] ++ rest) = .lexeme .charLit ('\'' :: unit ++ ['\'']) := by
  cases hunit with
  | plain d plain =>
      have escapes : d ≠ '\\' := by
        rintro rfl
        simp [isPlain] at plain
      simp [charAfter, plain, escapes]
  | escaped d escapable => simp [charAfter, escapable]

/-- Without a unit and the closing quote, the opening quote is stray. -/
theorem charAfter_of_no_unit {cs : List Char}
    (none : ∀ unit, QuotedUnit '\'' unit → ¬unit ++ ['\''] <+: cs) :
    charAfter cs = .stray ['\''] := by
  unfold charAfter
  split
  next c rest =>
    split
    · rfl
    next escapable => exact absurd ⟨rest, rfl⟩ (none ['\\', c] (.escaped c escapable))
  next c rest _ =>
    split
    next plain => exact absurd ⟨rest, rfl⟩ (none [c] (.plain c plain))
    · rfl
  next => rfl

theorem firstPiece_char {unit : List Char} (hunit : QuotedUnit '\'' unit) (rest : List Char) :
    firstPiece '\'' (unit ++ ['\''] ++ rest) = .lexeme .charLit ('\'' :: unit ++ ['\'']) := by
  rw [firstPiece_quote (.inr rfl), if_neg (by decide)]
  exact charAfter_of_unit hunit rest

/-- The first characters of operators begin nothing else. -/
theorem operators_first : ∀ op ∈ operators, ∀ d ∈ op.1.toList.head?,
    isBlank d = false ∧ d.isDigit = false ∧ isWordStart d = false ∧ d ≠ '"' ∧ d ≠ '\'' := by
  have check : ∀ op ∈ operators, op.1.toList.head?.all (fun d => !isBlank d && !d.isDigit &&
      !isWordStart d && d != '"' && d != '\'') = true := by
    decide
  intro op hop d hd
  have first := check op hop
  rw [Option.mem_def.1 hd] at first
  simpa [and_assoc] using first

/-- Every operator is found at its own head. -/
theorem operatorAt?_self : ∀ op ∈ operators, operatorAt? op.1.toList = some op := by
  decide

theorem operators_no_comment :
    ∀ op ∈ operators, "//".toList.isPrefixOf op.1.toList = false := by
  decide

theorem firstPiece_operator (listed : (String.ofList (c :: cs), kind) ∈ operators)
    (apart : Apart (c :: cs) rest) : firstPiece c (cs ++ rest) = .lexeme kind (c :: cs) := by
  have text : (String.ofList (c :: cs)).toList = c :: cs := String.toList_ofList
  obtain ⟨notBlank, notDigit, notWord, notString, notChar⟩ :=
    operators_first _ listed c (by rw [text]; rfl)
  -- nothing that `rest` could complete is longer than the operator itself
  have ends (longer : String) (known : longer ∈ "//" :: operators.map Prod.fst) :
      longer.toList.isPrefixOf (c :: cs ++ rest) = longer.toList.isPrefixOf (c :: cs) := by
    rw [Bool.eq_iff_iff, List.isPrefixOf_iff_prefix, List.isPrefixOf_iff_prefix]
    refine ⟨fun h => ?_, fun h => h.trans (List.prefix_append _ _)⟩
    rcases isPrefix_append h with h | ⟨d, hd, joined⟩
    · exact h
    · have apart := apart d hd
      simp only [joins, notDigit, notWord] at apart
      have := List.any_eq_false.1 apart longer known
      exact absurd (List.isPrefixOf_iff_prefix.2 joined) this
  have noComment := operators_no_comment _ listed
  rw [text, ← ends "//" (List.mem_cons_self ..)] at noComment
  have found : operatorAt? (c :: cs ++ rest) = some (String.ofList (c :: cs), kind) := by
    rw [← operatorAt?_self _ listed, text]
    unfold operatorAt?
    refine find?_congr fun op hop => ?_
    exact ends op.1 (List.mem_cons_of_mem _ (List.mem_map_of_mem hop))
  unfold firstPiece
  rw [if_neg (by rw [notBlank]; simp), if_neg (by rw [notDigit]; simp),
    if_neg (by rw [notWord]; simp), if_neg notString, if_neg notChar]
  unfold markAt
  rw [← List.cons_append, if_neg (by rw [noComment]; simp), found]
  simp only [text]

theorem reservedWords_word : ∀ p ∈ reservedWords, wordKind p.1 = p.2 ∧
    p.1.toList.head?.any isWordStart = true ∧ p.1.toList.tail.all isWordChar = true := by
  decide

/-- The text of a lexeme is found wherever it stands apart from what follows. -/
theorem firstPiece_of_spells (spells : kind.Spells (c :: cs)) (apart : Apart (c :: cs) rest) :
    firstPiece c (cs ++ rest) = .lexeme kind (c :: cs) := by
  -- the kinds with listed spellings are operators and words; the others have patterns
  cases hlisted : kind.isListed with
  | true =>
      rw [spells_of_isListed hlisted, List.mem_append] at spells
      rcases spells with listed | listed
      · exact firstPiece_operator listed apart
      · obtain ⟨hkind, start, others⟩ := reservedWords_word _ listed
        rw [String.toList_ofList] at start others
        exact firstPiece_word ⟨by simpa using start, by simpa using others⟩ hkind apart
  | false =>
      cases kind with
      | intLit => exact firstPiece_digits spells apart
      | floatLit =>
          obtain ⟨whole, fraction, hwhole, hfraction, htext⟩ := spells
          exact firstPiece_decimal hwhole hfraction htext apart
      | charLit =>
          obtain ⟨unit, hunit, htext⟩ := spells
          obtain ⟨rfl, rfl⟩ := List.cons.inj htext
          exact firstPiece_char hunit rest
      | stringLit =>
          obtain ⟨units, hunits, htext⟩ := spells
          obtain ⟨rfl, rfl⟩ := List.cons.inj htext
          exact firstPiece_string hunits rest
      | ident =>
          obtain ⟨word, unreserved⟩ := spells
          refine firstPiece_word word ?_ apart
          unfold wordKind
          -- an identifier is a word that is not reserved
          have missing : reservedWords.lookup (String.ofList (c :: cs)) = none := by
            rw [List.lookup_eq_none_iff]
            intro p hp
            refine bne_iff_ne.2 fun h => unreserved ?_
            rw [h]
            exact List.mem_map_of_mem hp
          rw [missing]
          rfl
      | _ => exact absurd hlisted (by decide)

/-- The text of a lexeme is found at its own head. -/
theorem firstPiece_alone (spells : kind.Spells (c :: cs)) :
    firstPiece c cs = .lexeme kind (c :: cs) := by
  have apart := apart_nil (c :: cs)
  have found := firstPiece_of_spells spells apart
  rwa [List.append_nil] at found

end ProcLang
