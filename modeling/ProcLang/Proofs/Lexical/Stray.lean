import Mathlib
import ProcLang.Proofs.Lexical.Concatenation
import ProcLang.Proofs.Lexical.LongestMatch

/-!
# Lexical errors

A lexical error is the first stray text of a source: no pattern matches where it stands, and
everything before it splits into tokens (`placePieces_stray`). That the text before it does so
on its own is seen piece by piece: a piece that ends within a shorter text is found there again
(`firstPiece_within`). Stray text is one character, unless it is a string that is not closed: its
quote is reported together with all complete units behind it (`lexical_error_exact`).
-/

set_option autoImplicit false

namespace ProcLang

variable {c : Char} {cs more rest text longer : List Char}

/-! ## What is stray -/

/-- The piece is a lexeme or spacing. -/
def Piece.IsProper (p : Piece) : Prop :=
  ∀ text, p ≠ .stray text

theorem Piece.IsProper.matchLength_eq {p : Piece} (h : p.IsProper) :
    p.matchLength = p.text.length := by
  cases p with
  | spacing text => rfl
  | lexeme kind text => rfl
  | stray text => exact absurd rfl (h text)

theorem not_isMatch_nil : ¬IsMatch [] := by
  rintro (⟨kind, matched⟩ | ⟨nonempty, -⟩ | ⟨comment, -, text⟩)
  · by_cases ident : kind = .ident
    · subst ident
      exact matched
    · exact not_spells_nil kind (matched.spells ident)
  · exact nonempty rfl
  · cases text

/-- Where stray text stands no pattern matches anything. -/
theorem not_isMatch_of_stray (found : firstPiece c cs = .stray text) (front : longer <+: c :: cs) :
    ¬IsMatch longer := by
  intro matched
  have covers := firstPiece_covers front matched
  rw [found] at covers
  rw [List.eq_nil_of_length_eq_zero (Nat.le_zero.1 covers)] at matched
  exact not_isMatch_nil matched

/-- What is found and is not stray is matched by a pattern. -/
theorem isMatch_of_proper (proper : (firstPiece c cs).IsProper) :
    IsMatch (firstPiece c cs).text := by
  cases found : firstPiece c cs with
  | spacing text =>
      refine .inr ?_
      rcases firstPiece_spacing found with ⟨blank, rfl⟩ | ⟨⟨body, comment⟩, rfl⟩
      · refine .inl ⟨List.cons_ne_nil _ _, List.forall_mem_cons.2 ⟨blank, ?_⟩⟩
        exact List.all_eq_true.1 List.all_takeWhile
      · rw [← comment]
        refine .inr ⟨body.takeWhile (· ≠ '\n'), fun mem => ?_, rfl⟩
        have other := List.all_eq_true.1 List.all_takeWhile _ mem
        exact of_decide_eq_true other rfl
  | lexeme kind text => exact .inl ⟨kind, (firstPiece_spells found).matches⟩
  | stray text => exact absurd found (proper text)

/-- A proper piece that ends within a shorter text is found there as long, and proper. -/
theorem firstPiece_within {rest' : List Char}
    (text : (firstPiece c (more ++ rest)).text = c :: more)
    (proper : (firstPiece c (more ++ rest)).IsProper) (shorter : rest' <+: rest) :
    (firstPiece c (more ++ rest')).text = c :: more ∧ (firstPiece c (more ++ rest')).IsProper := by
  have matched : IsMatch (c :: more) := text ▸ isMatch_of_proper proper
  have front : c :: more <+: c :: (more ++ rest') := List.prefix_append (c :: more) rest'
  have proper' : (firstPiece c (more ++ rest')).IsProper := fun text stray =>
    not_isMatch_of_stray stray front matched
  refine ⟨?_, proper'⟩
  -- what is found in either text is matched in the other, so neither is longer
  have front' := firstPiece_isPrefix c (more ++ rest')
  have inside : c :: (more ++ rest') <+: c :: (more ++ rest) := by
    obtain ⟨behind, rfl⟩ := shorter
    exact ⟨behind, by simp⟩
  have covers := firstPiece_covers front matched
  have covers' := firstPiece_covers (front'.trans inside) (isMatch_of_proper proper')
  rw [proper'.matchLength_eq] at covers
  rw [proper.matchLength_eq, text] at covers'
  exact (List.prefix_of_prefix_length_le front' front covers').eq_of_length
    (Nat.le_antisymm covers' covers)

/-! ## Strings that are not closed -/

/-- No unit of a string begins here: nothing is left, or a line feed stands here, or a backslash
with nothing behind it that it could escape. -/
def EndsUnits (cs : List Char) : Prop :=
  cs = [] ∨ cs.head? = some '\n' ∨ cs = ['\\'] ∨ ['\\', '\n'] <+: cs

/-- The run of units behind a quote is the longest. -/
theorem quotedRun_longest {quote : Char} {units : List (List Char)}
    (hunits : ∀ u ∈ units, QuotedUnit quote u) (front : units.flatten <+: cs) :
    units.flatten.length ≤ (quotedRun quote cs).length := by
  obtain ⟨rest, rfl⟩ := front
  rw [quotedRun_units_append hunits, List.length_append]
  exact Nat.le_add_right _ _

/-- No unit stands behind the run. -/
theorem quotedRun_stops {quote : Char} (split : cs = quotedRun quote cs ++ rest) {unit : List Char}
    (hunit : QuotedUnit quote unit) : ¬unit <+: rest := by
  intro front
  obtain ⟨units, hunits, run⟩ := quotedRun_units quote cs
  have longer : ∀ u ∈ units ++ [unit], QuotedUnit quote u := by
    intro u mem
    rcases List.mem_append.1 mem with mem | mem
    · exact hunits u mem
    · obtain rfl := List.mem_singleton.1 mem
      exact hunit
  have flat : (units ++ [unit]).flatten = quotedRun quote cs ++ unit := by
    rw [List.flatten_append, List.flatten_singleton, run]
  have inside : (units ++ [unit]).flatten <+: cs := by
    rw [flat]
    conv => rhs; rw [split]
    exact (List.prefix_append_right_inj _).2 front
  have short := quotedRun_longest longer inside
  rw [flat, List.length_append] at short
  cases hunit with
  | plain d plain => simp at short
  | escaped d escapable => simp at short

/-- Behind the units of a string that is not closed no further unit begins. -/
theorem endsUnits_of_stray (found : firstPiece '"' cs = .stray text)
    (split : cs = quotedRun '"' cs ++ rest) : EndsUnits rest := by
  have stops {unit : List Char} (hunit : QuotedUnit '"' unit) := quotedRun_stops split hunit
  cases rest with
  | nil => exact .inl rfl
  | cons d rest =>
      refine .inr ?_
      by_cases line : d = '\n'
      · exact .inl (congrArg some line)
      by_cases backslash : d = '\\'
      · subst backslash
        cases rest with
        | nil => exact .inr (.inl rfl)
        | cons e rest =>
            by_cases escapable : e = '\n'
            · exact .inr (.inr ⟨rest, by rw [escapable]; rfl⟩)
            · exact absurd ⟨rest, rfl⟩ (stops (.escaped e escapable))
      by_cases closes : d = '"'
      -- a quote would close the string
      · subst closes
        obtain ⟨units, hunits, run⟩ := quotedRun_units '"' cs
        have closed := firstPiece_string hunits rest
        rw [List.append_assoc, List.singleton_append, ← run, ← split, found] at closed
        cases closed
      · have plain : isPlain '"' d = true := by
          simp [isPlain, closes, backslash, line]
        exact absurd ⟨rest, rfl⟩ (stops (.plain d plain))

/-! ## The first stray text -/

/-- A proper piece and a text that can be scanned. -/
theorem scan_append_of_proper (text : (firstPiece c (more ++ rest)).text = c :: more)
    (proper : (firstPiece c (more ++ rest)).IsProper) {ls : List Lexeme}
    (scanned : scan rest = some ls) :
    ∃ ls', scan (c :: more ++ rest) = some ls' := by
  have split := pieces_cons text
  rw [List.cons_append, scan, split]
  cases found : firstPiece c (more ++ rest) with
  | spacing text => exact ⟨ls, scanned⟩
  | lexeme kind text => exact ⟨_, congrArg (Option.map _) scanned⟩
  | stray text => exact absurd found (proper text)

/-- The error is that of stray text in `cs`, which begins at byte `offset`, and what stands before
the stray text can be scanned on its own. -/
def ReportsStray (offset : Nat) (cs : List Char) (e : SyntaxError) : Prop :=
  ∃ before c more rest, cs = before ++ (c :: more ++ rest) ∧ (∃ ls, scan before = some ls) ∧
    firstPiece c (more ++ rest) = .stray (c :: more) ∧
    e = ⟨String.ofList (c :: more),
      ⟨offset + utf8Length before, offset + utf8Length before + utf8Length (c :: more)⟩⟩

/-- A lexical error reports stray text. -/
theorem placePieces_stray {offset : Nat} {e : SyntaxError}
    (h : placePieces offset (pieces cs) = .error e) : ReportsStray offset cs e := by
  revert offset
  refine pieces_induction (motive := fun cs ps => ∀ {offset}, placePieces offset ps = .error e →
    ReportsStray offset cs e) ?_ ?_ cs
  · intro offset h
    cases h
  · intro c more rest text ih offset h
    -- behind a proper piece the error is one of what follows, and the piece is found again in
    -- front of what stands before the error
    have later (proper : (firstPiece c (more ++ rest)).IsProper)
        (behind : placePieces (offset + utf8Length (c :: more)) (pieces rest) = .error e) :
        ReportsStray offset (c :: more ++ rest) e := by
      obtain ⟨before, c', more', rest', rfl, ⟨ls, scanned⟩, found, place⟩ := ih behind
      obtain ⟨text', proper'⟩ := firstPiece_within text proper (List.prefix_append before _)
      rw [Nat.add_assoc offset, ← utf8Length_append] at place
      exact ⟨c :: more ++ before, c', more', rest', (List.append_assoc _ _ _).symm,
        scan_append_of_proper text' proper' scanned, found, place⟩
    cases found : firstPiece c (more ++ rest) with
    | spacing text' =>
        rw [found] at text h
        obtain rfl : text' = c :: more := text
        exact later (fun _ stray => Piece.noConfusion (found.symm.trans stray)) h
    | lexeme kind text' =>
        rw [found] at text h
        obtain rfl : text' = c :: more := text
        simp only [placePieces, Piece.text] at h
        cases hothers : placePieces (offset + utf8Length (c :: more)) (pieces rest) with
        | error e' =>
            rw [hothers] at h
            obtain rfl := Except.error.inj h
            exact later (fun _ stray => Piece.noConfusion (found.symm.trans stray)) hothers
        | ok ts =>
            rw [hothers] at h
            cases h
    | stray text' =>
        rw [found] at text h
        obtain rfl : text' = c :: more := text
        exact ⟨[], c, more, rest, rfl, ⟨[], scan_nil⟩, found, (Except.error.inj h).symm⟩

/-- Lexical errors are exact. The error of a source that does not split into tokens carries the
slice of the source at its span, which is not empty; the source up to it splits into tokens on
its own; and no pattern, of a token or of spacing, matches anything where it stands. Where a quote
stands there, the text is the quote with the longest run of complete units behind it, and no
further unit begins behind the run; everywhere else it is one character. -/
theorem lexical_error_exact (source : String) (e : SyntaxError)
    (refused : tokenize source = .error e) :
    e.span.Within source ∧ e.span.slice source = e.text ∧ e.text ≠ "" ∧
    (∃ tokens, tokenize ((Span.mk 0 e.span.start).slice source) = .ok tokens) ∧
    (∀ front, front <+: textFrom source e.span.start → ¬IsMatch front) ∧
    ((textFrom source e.span.start).head? = some '"' →
      ∃ units : List (List Char), (∀ u ∈ units, QuotedUnit '"' u) ∧
        e.text.toList = '"' :: units.flatten ∧
        (∀ units' : List (List Char), (∀ u ∈ units', QuotedUnit '"' u) →
          '"' :: units'.flatten <+: textFrom source e.span.start →
            units'.flatten.length ≤ units.flatten.length) ∧
        EndsUnits (textFrom source e.span.stop)) ∧
    ((textFrom source e.span.start).head? ≠ some '"' → e.text.length = 1) := by
  obtain ⟨before, c, more, rest, whole, ⟨ls, scanned⟩, found, rfl⟩ := placePieces_stray refused
  have behind : source.toList = before ++ (c :: more) ++ rest := by
    rw [whole, List.append_assoc]
  have stop := textFrom_of_append behind
  rw [utf8Length_append] at stop
  simp only [Nat.zero_add, String.toList_ofList, String.length_ofList, stop,
    textFrom_of_append whole, Span.slice_of_append whole, true_and]
  refine ⟨Span.within_of_append whole, ?_, ?_, fun front => not_isMatch_of_stray found, ?_, ?_⟩
  · intro none
    have letters := congrArg String.toList none
    rw [String.toList_ofList] at letters
    cases letters
  · have whole' : source.toList = [] ++ (before ++ (c :: more ++ rest)) := whole
    have front := Span.slice_of_append whole'
    rw [utf8Length_nil, Nat.zero_add] at front
    rw [front]
    rw [← String.toList_ofList (l := before)] at scanned
    obtain ⟨tokens, n, split, -⟩ := tokenize_of_scan scanned
    exact ⟨_, split⟩
  · intro quote
    obtain rfl : c = '"' := Option.some.inj quote
    rcases firstPiece_stray_cases found with ⟨-, run⟩ | ⟨notQuote, -⟩
    · obtain ⟨-, run⟩ := List.cons.inj run
      obtain ⟨units, hunits, flat⟩ := quotedRun_units '"' (more ++ rest)
      have ends := endsUnits_of_stray found (congrArg (· ++ rest) run)
      refine ⟨units, hunits, ?_, fun units' hunits' front => ?_, ends⟩
      · rw [← flat, ← run]
      · rw [← flat]
        exact quotedRun_longest hunits' (List.cons_prefix_cons.1 front).2
    · exact absurd rfl notQuote
  · intro noQuote
    rcases firstPiece_stray_cases found with ⟨quote, -⟩ | ⟨-, -, text⟩
    · exact absurd (congrArg some quote) noQuote
    · exact congrArg List.length text

set_option maxRecDepth 100000 in
/-- A string with an escaped quote that is not closed on its line: the backslash at the end of the
line is not reported, and the tokens before the string are there. -/
theorem lexical_error_exact_unclosed :
    tokenize "x=\"é\\\"\\\n\";" = .error ⟨"\"é\\\"", ⟨2, 7⟩⟩ ∧
      (Span.mk 2 7).slice "x=\"é\\\"\\\n\";" = "\"é\\\"" ∧
      (∃ tokens, tokenize "x=" = .ok tokens) ∧
      (∀ front, front <+: textFrom "x=\"é\\\"\\\n\";" 2 → ¬IsMatch front) ∧
      EndsUnits (textFrom "x=\"é\\\"\\\n\";" 7) := by
  have refused : tokenize "x=\"é\\\"\\\n\";" = .error ⟨"\"é\\\"", ⟨2, 7⟩⟩ := by cbv
  have before : (Span.mk 0 2).slice "x=\"é\\\"\\\n\";" = "x=" := by cbv
  have quote : (textFrom "x=\"é\\\"\\\n\";" 2).head? = some '"' := by cbv
  obtain ⟨-, slice, -, front, unmatched, string, -⟩ := lexical_error_exact _ _ refused
  obtain ⟨-, -, -, -, ends⟩ := string quote
  rw [before] at front
  exact ⟨refused, slice, front, unmatched, ends⟩

end ProcLang
