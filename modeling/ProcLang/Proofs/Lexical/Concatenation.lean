import Mathlib
import ProcLang.Proofs.Lexical.Scan

/-!
# The tokens of a concatenation

A line feed ends every piece before it, and no piece that is not spacing reaches over it.
So a text that splits into tokens does the same when a line feed and another text stand
behind it: its own tokens come first, and then those of the other text, moved on by the
bytes before it (`tokenize_append_line`).
-/

set_option autoImplicit false

namespace ProcLang

/-! ## Moving places -/

/-- A span, moved on by `n` bytes. -/
def Span.shift (n : Nat) (s : Span) : Span :=
  ⟨n + s.start, n + s.stop⟩

/-- A token, moved on by `n` bytes. -/
def Token.shift (n : Nat) (t : Token) : Token :=
  ⟨t.toLexeme, t.span.shift n⟩

/-- A syntax error, moved on by `n` bytes. -/
def SyntaxError.shift (n : Nat) (e : SyntaxError) : SyntaxError :=
  ⟨e.text, e.span.shift n⟩

/-- Pieces that begin further on are placed further on. -/
theorem placePieces_shift (n offset : Nat) (ps : List Piece) :
    placePieces (n + offset) ps =
      ((placePieces offset ps).map (List.map (Token.shift n))).mapError (SyntaxError.shift n) := by
  induction ps generalizing offset with
  | nil => rfl
  | cons p ps ih =>
      have behind := ih (offset + utf8Length p.text)
      rw [← Nat.add_assoc] at behind
      cases p with
      | spacing text => exact behind
      | lexeme kind text =>
          simp only [placePieces, behind]
          cases placePieces (offset + utf8Length (Piece.lexeme kind text).text) ps with
          | error e => rfl
          | ok ts =>
              simp only [Except.map, Except.mapError, List.map_cons, Token.shift, Span.shift,
                Nat.add_assoc]
      | stray text =>
          simp only [placePieces, Except.map, Except.mapError, SyntaxError.shift, Span.shift,
            Nat.add_assoc]

/-! ## Pieces before a line feed -/

section LineFeed

variable (cs rest : List Char)

theorem takeWhile_line {p : Char → Bool} (ends : p '\n' = false) :
    (cs ++ '\n' :: rest).takeWhile p = cs.takeWhile p := by
  induction cs with
  | nil => simp [ends]
  | cons c cs ih =>
      by_cases h : p c = true
      · simp [h, ih]
      · simp [h]

theorem dropWhile_line {p : Char → Bool} (ends : p '\n' = false) :
    (cs ++ '\n' :: rest).dropWhile p = cs.dropWhile p ++ '\n' :: rest := by
  induction cs with
  | nil => simp [ends]
  | cons c cs ih =>
      by_cases h : p c = true
      · simp [h, ih]
      · simp [h]

theorem numberAt_line : numberAt (cs ++ '\n' :: rest) = numberAt cs := by
  unfold numberAt
  rw [takeWhile_line cs rest (by decide), dropWhile_line cs rest (by decide)]
  cases cs.dropWhile Char.isDigit with
  | nil => rfl
  | cons d ds =>
      by_cases point : d = '.'
      · subst point
        simp only [List.cons_append, takeWhile_line ds rest (show Char.isDigit '\n' = false by decide)]
      · simp [point]

theorem quotedRun_line (quote : Char) :
    quotedRun quote (cs ++ '\n' :: rest) = quotedRun quote cs := by
  have stops : quotedRun quote ('\n' :: rest) = [] := by
    cases rest with
    | nil => simp [quotedRun, isPlain]
    | cons d rest => simp [quotedRun, isPlain]
  fun_induction quotedRun quote cs with
  | case1 => exact stops
  | case2 c plain =>
      have escapes : c ≠ '\\' := by
        rintro rfl
        simp [isPlain] at plain
      simp [quotedRun, plain, escapes, stops]
  | case3 c plain => simp [quotedRun, plain]
  | case4 cs => simp [quotedRun]
  | case5 d cs escapable ih => simp [quotedRun, escapable, ih]
  | case6 c d cs unescaped plain ih =>
      simp only [List.cons_append] at ih ⊢
      simp [quotedRun, unescaped, plain, ih]
  | case7 c d cs unescaped plain => simp [quotedRun, unescaped, plain]

theorem stringAfter_line : stringAfter (cs ++ '\n' :: rest) = stringAfter cs := by
  obtain ⟨behind, whole⟩ := quotedRun_isPrefix '"' cs
  unfold stringAfter
  rw [quotedRun_line]
  generalize quotedRun '"' cs = body at whole
  subst whole
  simp only [List.append_assoc, List.drop_left]
  cases behind with
  | nil => rfl
  | cons d behind =>
      by_cases closes : d = '"'
      · subst closes
        rfl
      · simp [closes]

/-- A text without a line feed is not found over one. -/
theorem prefix_line {longer : List Char} (h : '\n' ∉ longer) :
    longer <+: cs ++ '\n' :: rest ↔ longer <+: cs := by
  constructor
  · intro found
    rcases isPrefix_append found with inside | ⟨d, mem, joined⟩
    · exact inside
    · obtain rfl : '\n' = d := Option.some.inj mem
      exact absurd (joined.subset (by simp)) h
  · intro inside
    exact inside.trans (List.prefix_append cs _)

theorem isPrefixOf_line {longer : List Char} (h : '\n' ∉ longer) :
    longer.isPrefixOf (cs ++ '\n' :: rest) = longer.isPrefixOf cs := by
  rw [Bool.eq_iff_iff, List.isPrefixOf_iff_prefix, List.isPrefixOf_iff_prefix]
  exact prefix_line cs rest h

theorem charAfter_line : charAfter (cs ++ '\n' :: rest) = charAfter cs := by
  -- a literal is closed before the line feed or not at all, as no unit holds one
  by_cases closed : ∃ unit, QuotedUnit '\'' unit ∧ unit ++ ['\''] <+: cs
  · obtain ⟨unit, hunit, behind, rfl⟩ := closed
    rw [List.append_assoc, charAfter_of_unit hunit, charAfter_of_unit hunit]
  · rw [not_exists] at closed
    have none (unit : List Char) (hunit : QuotedUnit '\'' unit) : ¬unit ++ ['\''] <+: cs :=
      fun found => closed unit ⟨hunit, found⟩
    rw [charAfter_of_no_unit none, charAfter_of_no_unit]
    intro unit hunit found
    rw [prefix_line cs rest (by simpa using hunit.no_line)] at found
    exact none unit hunit found

theorem markAt_line (c : Char) : markAt c (cs ++ '\n' :: rest) = markAt c cs := by
  have found : operatorAt? (c :: cs ++ '\n' :: rest) = operatorAt? (c :: cs) :=
    find?_congr fun op mem => isPrefixOf_line (c :: cs) rest (operators_no_line op mem)
  unfold markAt
  rw [← List.cons_append, isPrefixOf_line (c :: cs) rest (by decide),
    takeWhile_line (c :: cs) rest (by simp), found]

/-- A line feed ends every piece that does not begin with a blank. -/
theorem firstPiece_line {c : Char} (notBlank : isBlank c = false) :
    firstPiece c (cs ++ '\n' :: rest) = firstPiece c cs := by
  have word : wordAt (c :: cs ++ '\n' :: rest) = wordAt (c :: cs) := by
    unfold wordAt
    rw [takeWhile_line (c :: cs) rest (by decide)]
  unfold firstPiece
  rw [if_neg (ne_true_of_eq_false notBlank), if_neg (ne_true_of_eq_false notBlank), ← List.cons_append,
    numberAt_line, word, stringAfter_line, charAfter_line, markAt_line]

end LineFeed

/-! ## Tokens -/

/-- A blank only moves on what stands behind it. -/
theorem placePieces_blank {c : Char} (blank : isBlank c = true) (offset : Nat) (cs : List Char) :
    placePieces offset (pieces (c :: cs)) = placePieces (offset + c.utf8Size) (pieces cs) := by
  rw [pieces_blanks blank, placePieces, Piece.text]
  cases cs with
  | nil => rfl
  | cons d cs =>
      by_cases hd : isBlank d = true
      · rw [pieces_blanks hd, placePieces, Piece.text, List.takeWhile_cons_of_pos hd,
          List.dropWhile_cons_of_pos hd, utf8Length_cons, Nat.add_assoc]
      · rw [List.takeWhile_cons_of_neg hd, List.dropWhile_cons_of_neg hd]
        rfl

/-- A piece that is no blank is found again where the text goes on behind a line feed. -/
theorem exists_pieces_line {c : Char} (notBlank : isBlank c = false) (cs : List Char) :
    ∃ more others, cs = more ++ others ∧ (firstPiece c cs).text = c :: more ∧
      pieces (c :: cs) = firstPiece c cs :: pieces others ∧
        ∀ rest, pieces (c :: cs ++ '\n' :: rest) =
          firstPiece c cs :: pieces (others ++ '\n' :: rest) := by
  obtain ⟨more, others, rfl, text, split⟩ := exists_pieces_cons c cs
  refine ⟨more, others, rfl, text, split, fun rest => ?_⟩
  have first := firstPiece_line (more ++ others) rest notBlank
  rw [List.append_assoc] at first
  rw [← first] at text ⊢
  rw [List.cons_append, List.append_assoc, pieces_cons text]

/-- Where a text splits into tokens, so does every text that goes on behind a line feed: the
tokens of the first come before those of what follows. -/
theorem placePieces_append_line {offset : Nat} {cs : List Char} {ts : List Token}
    (h : placePieces offset (pieces cs) = .ok ts) :
    ∃ front, ts = front ++ [Token.endAt (offset + utf8Length cs)] ∧
      ∀ rest, placePieces offset (pieces (cs ++ '\n' :: rest)) =
        (placePieces (offset + utf8Length cs + 1) (pieces rest)).map (front ++ ·) := by
  -- the induction is on the length of the text; blanks are taken one by one, since a run of
  -- them goes on over the line feed
  induction hn : cs.length using Nat.strongRecOn generalizing cs offset ts with
  | ind n ih =>
    subst hn
    cases cs with
    | nil =>
        rw [pieces] at h
        obtain rfl := Except.ok.inj h
        refine ⟨[], rfl, fun rest => ?_⟩
        rw [List.nil_append, placePieces_blank (by decide)]
        exact (congrFun Except.map_id _).symm
    | cons c cs =>
      by_cases blank : isBlank c = true
      · rw [placePieces_blank blank] at h
        obtain ⟨front, hts, behind⟩ := ih cs.length (Nat.lt_succ_self _) h rfl
        rw [Nat.add_assoc] at hts
        refine ⟨front, hts, fun rest => ?_⟩
        rw [List.cons_append, placePieces_blank blank, behind rest, Nat.add_assoc offset]
        rfl
      · rw [Bool.not_eq_true] at blank
        obtain ⟨more, others, rfl, text, split, split'⟩ := exists_pieces_line blank cs
        have shorter : others.length < (c :: (more ++ others)).length := by
          rw [List.length_cons, List.length_append]
          exact Nat.lt_succ_of_le (Nat.le_add_left _ _)
        have total : offset + utf8Length (c :: more) + utf8Length others =
            offset + utf8Length (c :: (more ++ others)) := by
          rw [Nat.add_assoc, ← utf8Length_append]
          rfl
        simp only [split']
        rw [split] at h
        generalize firstPiece c (more ++ others) = p at text h
        cases p with
        | spacing text' =>
            obtain rfl : text' = c :: more := text
            replace h : placePieces (offset + utf8Length (c :: more)) (pieces others) = .ok ts := h
            rw [← total]
            exact ih others.length shorter h rfl
        | lexeme kind text' =>
            obtain rfl : text' = c :: more := text
            simp only [placePieces, Piece.text] at h ⊢
            cases hothers : placePieces (offset + utf8Length (c :: more)) (pieces others) with
            | error e =>
                rw [hothers] at h
                cases h
            | ok ts' =>
                rw [hothers] at h
                obtain rfl := Except.ok.inj h
                obtain ⟨front, rfl, behind⟩ := ih others.length shorter hothers rfl
                rw [total] at behind ⊢
                refine ⟨_ :: front, rfl, fun rest => ?_⟩
                rw [behind rest]
                cases placePieces _ (pieces rest) with
                | error e => rfl
                | ok ts => rfl
        | stray text' => cases h

/-- The characters of two texts with a line feed between them. -/
theorem toList_append_line (a b : String) :
    (a ++ "\n" ++ b).toList = a.toList ++ '\n' :: b.toList := by
  rw [String.toList_append, String.toList_append, List.append_assoc]
  rfl

/-- The tokens of two texts with a line feed between them. Where the first splits into
tokens, these come first, and what becomes of the second is as for itself, moved on by the
bytes before it. -/
theorem tokenize_append_line {a : String} {ts : List Token} (h : tokenize a = .ok ts) :
    ∃ front, ts = front ++ [Token.endAt a.utf8ByteSize] ∧
      ∀ b, tokenize (a ++ "\n" ++ b) =
        ((tokenize b).map fun ts' => front ++ ts'.map (Token.shift (a.utf8ByteSize + 1))).mapError
          (SyntaxError.shift (a.utf8ByteSize + 1)) := by
  obtain ⟨front, hts, behind⟩ := placePieces_append_line h
  rw [Nat.zero_add, utf8Length_toList] at hts behind
  refine ⟨front, hts, fun b => ?_⟩
  unfold tokenize
  rw [toList_append_line, behind]
  show (placePieces (a.utf8ByteSize + 1 + 0) _).map _ = _
  rw [placePieces_shift]
  cases placePieces 0 (pieces b.toList) with
  | error e => rfl
  | ok ts' => rfl

end ProcLang
