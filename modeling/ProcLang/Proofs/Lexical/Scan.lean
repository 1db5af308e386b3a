import ProcLang.Lexical.Tokenize
import ProcLang.Proofs.Lexical.Spelling
import ProcLang.Tree.WellFormed

/-!
# The lexemes of a text

`scan` gives the lexemes of a text without their places. It is what `tokenize` finds
(`tokenize_eq_ok`, `tokenize_of_scan`), a blank does not change it, and the text of a
lexeme adds that lexeme.
-/

set_option autoImplicit false

namespace ProcLang

/-- The lexemes among pieces, if none of them is stray. -/
def Piece.lexemes? : List Piece → Option (List Lexeme)
  | [] => some []
  | .spacing _ :: ps => lexemes? ps
  | .lexeme kind text :: ps => (lexemes? ps).map (⟨kind, String.ofList text⟩ :: ·)
  | .stray _ :: _ => none

/-- The lexemes of a text, if nothing in it is stray. -/
def scan (cs : List Char) : Option (List Lexeme) :=
  Piece.lexemes? (pieces cs)

/-- Every token is a lexeme of its kind. -/
def Lexical (ts : List Token) : Prop :=
  ∀ t ∈ ts, t.kind.SpellsText t.text

theorem not_spells_endOfInput (cs : List Char) : ¬ TokenKind.endOfInput.Spells cs := by
  rw [spells_of_isListed rfl]
  intro h
  have : ∀ p ∈ operators ++ reservedWords, p.2 ≠ .endOfInput := by decide
  exact this _ h rfl

/-- No token that is a lexeme is an end marker. -/
theorem Lexical.proper {ts : List Token} (lex : Lexical ts) : ∀ t ∈ ts, t.kind ≠ .endOfInput := by
  intro t mem ended
  have spells := lex t mem
  rw [ended] at spells
  exact not_spells_endOfInput _ spells

/-- Every lexeme has a character. -/
theorem not_spells_nil (kind : TokenKind) : ¬ kind.Spells [] := by
  intro h
  cases hlisted : kind.isListed with
  | true =>
      rw [spells_of_isListed hlisted] at h
      have : ∀ p ∈ operators ++ reservedWords, p.1 ≠ "" := by decide
      exact this _ h rfl
  | false =>
      cases kind with
      | intLit => exact h.1 rfl
      | floatLit =>
          obtain ⟨whole, fraction, -, -, htext⟩ := h
          simp at htext
      | charLit =>
          obtain ⟨unit, -, htext⟩ := h
          simp at htext
      | stringLit =>
          obtain ⟨units, -, htext⟩ := h
          simp at htext
      | ident => exact h.1
      | _ => exact absurd hlisted (by decide)

/-- A text spells a kind if it is found as a lexeme of it. -/
instance (kind : TokenKind) : DecidablePred kind.Spells
  | [] => isFalse (not_spells_nil kind)
  | c :: cs => decidable_of_iff (firstPiece c cs = .lexeme kind (c :: cs))
      ⟨firstPiece_spells, firstPiece_alone⟩

/-! ## Scanning piece by piece -/

theorem scan_nil : scan [] = some [] := by
  rw [scan, pieces]
  rfl

variable {c : Char} {cs rest : List Char}

/-- Behind the first piece scanning goes on with the rest of the text. -/
theorem pieces_cons (htext : (firstPiece c (cs ++ rest)).text = c :: cs) :
    pieces (c :: (cs ++ rest)) = firstPiece c (cs ++ rest) :: pieces rest := by
  rw [pieces]
  simp only [htext, List.length_cons, Nat.add_sub_cancel, List.drop_left]

/-- The first piece, and the pieces of what stands behind it. -/
theorem exists_pieces_cons (c : Char) (cs : List Char) :
    ∃ more rest, cs = more ++ rest ∧ (firstPiece c cs).text = c :: more ∧
      pieces (c :: cs) = firstPiece c cs :: pieces rest := by
  obtain ⟨rest, whole⟩ := firstPiece_isPrefix c cs
  obtain ⟨d, more, text⟩ := List.exists_cons_of_ne_nil (firstPiece_ne_nil c cs)
  rw [text] at whole
  obtain ⟨rfl, rfl⟩ := List.cons.inj whole
  exact ⟨more, rest, rfl, text, pieces_cons text⟩

/-- Induction along the pieces of a text. -/
theorem pieces_induction {motive : List Char → List Piece → Prop} (nil : motive [] [])
    (cons : ∀ c more rest, (firstPiece c (more ++ rest)).text = c :: more →
      motive rest (pieces rest) →
        motive (c :: more ++ rest) (firstPiece c (more ++ rest) :: pieces rest))
    (cs : List Char) : motive cs (pieces cs) := by
  induction hn : cs.length using Nat.strongRecOn generalizing cs with
  | ind n ih =>
    subst hn
    cases cs with
    | nil =>
        rw [pieces]
        exact nil
    | cons c cs =>
        obtain ⟨more, rest, rfl, text, split⟩ := exists_pieces_cons c cs
        have shorter : rest.length < (c :: (more ++ rest)).length := by
          rw [List.length_cons, List.length_append]
          exact Nat.lt_succ_of_le (Nat.le_add_left _ _)
        rw [split]
        exact cons c more rest text (ih rest.length shorter rest rfl)

/-- A run of blanks is one piece. -/
theorem pieces_blanks (blank : isBlank c = true) :
    pieces (c :: cs) = .spacing (c :: cs.takeWhile isBlank) :: pieces (cs.dropWhile isBlank) := by
  have first : firstPiece c (cs.takeWhile isBlank ++ cs.dropWhile isBlank) =
      .spacing (c :: cs.takeWhile isBlank) := by
    rw [List.takeWhile_append_dropWhile, firstPiece, if_pos blank]
  have split := pieces_cons (congrArg Piece.text first)
  rwa [first, List.takeWhile_append_dropWhile] at split

/-- A run of blanks is passed over as a whole. -/
theorem scan_blanks (blank : isBlank c = true) :
    scan (c :: cs) = scan (cs.dropWhile isBlank) := by
  rw [scan, pieces_blanks blank]
  rfl

/-- A blank adds nothing. -/
theorem scan_blank (blank : isBlank c = true) : scan (c :: cs) = scan cs := by
  rw [scan_blanks blank]
  cases cs with
  | nil => rfl
  | cons d cs =>
      cases hd : isBlank d with
      | false => rw [List.dropWhile_cons_of_neg (by rw [hd]; simp)]
      | true => rw [List.dropWhile_cons_of_pos hd, scan_blanks hd]

/-- The text of a lexeme is the first piece, if it stands apart from what follows. -/
theorem pieces_lexeme {l : Lexeme} (spells : l.kind.SpellsText l.text)
    (apart : Apart l.text.toList rest) :
    pieces (l.text.toList ++ rest) = .lexeme l.kind l.text.toList :: pieces rest := by
  unfold TokenKind.SpellsText at spells
  cases htext : l.text.toList with
  | nil => exact absurd (htext ▸ spells) (not_spells_nil l.kind)
  | cons c cs =>
      rw [htext] at spells apart
      have first := firstPiece_of_spells spells apart
      have split := pieces_cons (congrArg Piece.text first)
      rwa [first] at split

/-- The text of a lexeme adds the lexeme, if it stands apart from what follows. -/
theorem scan_lexeme {l : Lexeme} (spells : l.kind.SpellsText l.text)
    (apart : Apart l.text.toList rest) :
    scan (l.text.toList ++ rest) = (scan rest).map (l :: ·) := by
  rw [scan, pieces_lexeme spells apart, Piece.lexemes?, String.ofList_toList]
  rfl

/-! ## Scanning and tokens -/

theorem placePieces_eq_ok {offset : Nat} {ps : List Piece} {ts : List Token}
    (h : placePieces offset ps = .ok ts) :
    ∃ front n, ts = front ++ [Token.endAt n] ∧
      Piece.lexemes? ps = some (front.map Token.toLexeme) ∧
      ∀ t ∈ front, .lexeme t.kind t.text.toList ∈ ps := by
  induction ps generalizing offset ts with
  | nil =>
      obtain rfl := Except.ok.inj h
      exact ⟨[], offset, rfl, rfl, by simp⟩
  | cons p ps ih =>
      cases p with
      | spacing text =>
          obtain ⟨front, n, hts, hls, hmem⟩ := ih h
          exact ⟨front, n, hts, hls, fun t ht => List.mem_cons_of_mem _ (hmem t ht)⟩
      | lexeme kind text =>
          cases hrest : placePieces (offset + utf8Length text) ps with
          | error e => simp [placePieces, Piece.text, hrest, Except.map] at h
          | ok ts' =>
              simp only [placePieces, Piece.text, hrest, Except.map, Except.ok.injEq] at h
              obtain ⟨front, n, rfl, hls, hmem⟩ := ih hrest
              refine ⟨_ :: front, n, h.symm, ?_, List.forall_mem_cons.2 ⟨?_, fun t ht => ?_⟩⟩
              · simp [Piece.lexemes?, hls]
              · simp
              · exact List.mem_cons_of_mem _ (hmem t ht)
      | stray text => simp [placePieces] at h

theorem placePieces_of_lexemes {ps : List Piece} {ls : List Lexeme}
    (h : Piece.lexemes? ps = some ls) (offset : Nat) : ∃ ts, placePieces offset ps = .ok ts := by
  induction ps generalizing offset ls with
  | nil => exact ⟨_, rfl⟩
  | cons p ps ih =>
      cases p with
      | spacing text => exact ih h _
      | lexeme kind text =>
          obtain ⟨ls', hls', -⟩ := Option.map_eq_some_iff.1 h
          obtain ⟨ts, hts⟩ := ih hls' (offset + utf8Length text)
          refine ⟨⟨⟨kind, String.ofList text⟩, ⟨offset, offset + utf8Length text⟩⟩ :: ts, ?_⟩
          simp only [placePieces, Piece.text, hts, Except.map]
      | stray text => simp [Piece.lexemes?] at h

/-- The tokens of a text are its lexemes, closed by one end marker. -/
theorem tokenize_eq_ok {source : String} {ts : List Token} (h : tokenize source = .ok ts) :
    ∃ front n, ts = front ++ [Token.endAt n] ∧ Lexical front ∧
      scan source.toList = some (front.map Token.toLexeme) := by
  obtain ⟨front, n, hts, hls, hmem⟩ := placePieces_eq_ok h
  exact ⟨front, n, hts, fun t ht => pieces_spells (hmem t ht), hls⟩

/-- A text that can be scanned can be split into tokens. -/
theorem tokenize_of_scan {source : String} {ls : List Lexeme} (h : scan source.toList = some ls) :
    ∃ front n, tokenize source = .ok (front ++ [Token.endAt n]) ∧ Lexical front ∧
      front.map Token.toLexeme = ls := by
  obtain ⟨ts, hts⟩ := placePieces_of_lexemes h 0
  obtain ⟨front, n, rfl, lex, hscan⟩ := tokenize_eq_ok hts
  exact ⟨front, n, hts, lex, Option.some.inj (hscan.symm.trans h)⟩

/-- The stream of closed tokens has the end marker behind them. -/
theorem ofTokens_append_endAt {front : List Token} (lex : Lexical front) (n : Nat) :
    TokenStream.ofTokens (front ++ [Token.endAt n]) = ⟨front, Token.endAt n⟩ := by
  unfold TokenStream.ofTokens
  generalize 0 = fallback
  induction front generalizing fallback with
  | nil => rfl
  | cons t front ih =>
      obtain ⟨proper, -⟩ := List.forall_mem_cons.1 lex.proper
      obtain ⟨-, lex⟩ := List.forall_mem_cons.1 lex
      rw [List.cons_append, TokenStream.ofTokensFrom, if_neg proper, ih lex]

end ProcLang
