import ProcLang.Proofs.Lexical.Scan
import ProcLang.Text.Slice

/-!
# The longest match

A lexeme that is found at the head of a text is the longest front part of the text that any
pattern matches (`firstPiece_longest`). The proof goes through the patterns: each tells by
its first character which scanner is at work, and what that scanner takes is no shorter.

A text that spells a kind spells no other kind (`TokenKind.eq_of_spells`), and alone it is one
token of that kind (`tokenize_alone`).
-/

set_option autoImplicit false

namespace ProcLang

/-! ## Patterns -/

variable {c : Char} {cs text longer : List Char} {kind : TokenKind}

/-- A reserved word is a word. -/
theorem isWord_of_reserved (listed : (String.ofList cs, kind) ∈ reservedWords) : IsWord cs := by
  obtain ⟨-, start, others⟩ := reservedWords_word _ listed
  rw [String.toList_ofList] at start others
  cases cs with
  | nil => exact absurd start (by simp)
  | cons d ds =>
      refine ⟨by simpa using start, ?_⟩
      simpa using others

/-- What spells a kind is matched by its pattern. -/
theorem TokenKind.Spells.matches (h : kind.Spells cs) : kind.Matches cs := by
  cases kind with
  | ident => exact h.1
  | _ => exact h

/-- What a pattern matches spells its kind, unless it is the pattern of identifiers. -/
theorem TokenKind.Matches.spells (h : kind.Matches cs) (notIdent : kind ≠ .ident) :
    kind.Spells cs := by
  cases kind with
  | ident => exact absurd rfl notIdent
  | _ => exact h

/-- No token goes over a line. -/
theorem TokenKind.Matches.no_line (h : kind.Matches cs) : '\n' ∉ cs := by
  by_cases ident : kind = .ident
  · subst ident
    exact fun mem => absurd (IsWord.no_blank h _ mem) (by decide)
  · exact (h.spells ident).no_line

/-- No text spells two kinds. -/
theorem TokenKind.eq_of_spells {kind' : TokenKind} (h : kind.Spells cs) (h' : kind'.Spells cs) :
    kind = kind' := by
  cases cs with
  | nil => exact absurd h (not_spells_nil kind)
  | cons c cs =>
      have found := firstPiece_alone h
      have found' := firstPiece_alone h'
      exact (Piece.lexeme.inj (found.symm.trans found')).1

/-! ## What the scanners take -/

/-- How many characters of a piece a pattern matches: all of them, or none if it is stray. -/
def Piece.matchLength : Piece → Nat
  | .spacing text | .lexeme _ text => text.length
  | .stray _ => 0

/-- A number is no shorter than the digits at its head. -/
theorem numberAt_length {run : List Char} (digits : ∀ d ∈ run, d.isDigit = true) (front : run <+: cs) :
    run.length ≤ (numberAt cs).matchLength := by
  have whole := length_le_takeWhile digits front
  unfold numberAt
  split
  · simp only
    split
    · exact whole
    · simp only [Piece.matchLength, List.length_append]
      omega
  · exact whole

/-- A number goes on over a point with digits behind it. -/
theorem numberAt_decimal {whole fraction : List Char} (hwhole : IsDigits whole)
    (hfraction : IsDigits fraction) (front : whole ++ '.' :: fraction <+: cs) :
    (whole ++ '.' :: fraction).length ≤ (numberAt cs).matchLength := by
  obtain ⟨rest, rfl⟩ := front
  rw [List.append_assoc, List.cons_append]
  have point : ∀ d ∈ ('.' :: (fraction ++ rest)).head?, d.isDigit = false := by simp
  obtain ⟨htake, hdrop⟩ := takeWhile_run hwhole.2 point
  have longer := length_le_takeWhile hfraction.2 (List.prefix_append fraction rest)
  have digits : (fraction ++ rest).takeWhile Char.isDigit ≠ [] := by
    intro none
    rw [none, List.length_nil, Nat.le_zero, List.length_eq_zero_iff] at longer
    exact hfraction.1 longer
  unfold numberAt
  simp only [htake, hdrop, if_neg digits, Piece.matchLength, List.length_append, List.length_cons]
  omega

/-- Longer operators come first. -/
theorem operators_ordered :
    operators.Pairwise fun op op' => op'.1.toList.length ≤ op.1.toList.length := by
  decide

/-- What does not go over a line is no longer than a line is. -/
theorem length_le_line (noLine : '\n' ∉ longer) (front : longer <+: cs) :
    longer.length ≤ (cs.takeWhile (· ≠ '\n')).length := by
  refine length_le_takeWhile (fun d mem => ?_) front
  rw [decide_eq_true_eq]
  rintro rfl
  exact noLine mem

/-- The operator that is found is the longest one there, and a comment is longer. -/
theorem markAt_longest {op : String × TokenKind} (listed : op ∈ operators)
    (front : op.1.toList <+: c :: cs) : op.1.toList.length ≤ (markAt c cs).matchLength := by
  have fits := List.isPrefixOf_iff_prefix.2 front
  unfold markAt
  split
  · exact length_le_line (operators_no_line op listed) front
  · cases first : operatorAt? (c :: cs) with
    | none => exact absurd fits (List.find?_eq_none.1 first op listed)
    | some found =>
        exact le_of_find?_eq_some (r := fun op op' => op'.1.toList.length ≤ op.1.toList.length)
          (fun _ => Nat.le_refl _) operators_ordered first op listed fits

/-! ## The first piece -/

theorem firstPiece_blank (blank : isBlank c = true) :
    firstPiece c cs = .spacing (c :: cs.takeWhile isBlank) :=
  if_pos blank

theorem firstPiece_number (digit : c.isDigit = true) : firstPiece c cs = numberAt (c :: cs) := by
  unfold firstPiece
  rw [if_neg (ne_true_of_eq_false (not_blank_of_isDigit digit)), if_pos digit]

theorem firstPiece_letter (start : isWordStart c = true) : firstPiece c cs = wordAt (c :: cs) := by
  unfold firstPiece
  rw [if_neg (ne_true_of_eq_false (not_blank_of_isWordStart start)),
    if_neg (ne_true_of_eq_false (not_digit_of_isWordStart start)), if_pos start]

/-- Where an operator stands, a comment, an operator or a mark is looked for. -/
theorem firstPiece_mark {op : String × TokenKind} (listed : op ∈ operators)
    (front : op.1.toList <+: c :: cs) : firstPiece c cs = markAt c cs := by
  have first : c ∈ op.1.toList.head? := by
    obtain ⟨d, ds, text⟩ := List.exists_cons_of_ne_nil (operators_ne_nil op listed)
    rw [text] at front ⊢
    exact congrArg some (List.cons_prefix_cons.1 front).1
  obtain ⟨notBlank, notDigit, notWord, notString, notChar⟩ := operators_first op listed c first
  unfold firstPiece
  rw [if_neg (ne_true_of_eq_false notBlank), if_neg (ne_true_of_eq_false notDigit),
    if_neg (ne_true_of_eq_false notWord), if_neg notString, if_neg notChar]

/-- No lexeme is found where a comment begins. -/
theorem not_comment_of_found (found : firstPiece c cs = .lexeme kind text) :
    ¬"//".toList <+: c :: cs := by
  intro comment
  rw [firstPiece_comment comment] at found
  exact absurd found (by simp)

/-- No word goes on behind the word that is found. -/
theorem word_length (word : IsWord longer) (front : longer <+: c :: cs) :
    longer.length ≤ (firstPiece c cs).matchLength := by
  cases longer with
  | nil => exact Nat.zero_le _
  | cons d ds =>
      obtain ⟨rfl, -⟩ := List.cons_prefix_cons.1 front
      obtain ⟨start, others⟩ := word
      have first : isWordChar d = true := isWordChar_of_isWordStart start
      rw [firstPiece_letter start]
      exact length_le_takeWhile (List.forall_mem_cons.2 ⟨first, others⟩) front

/-- No spacing goes on behind the first piece. -/
theorem spacing_length (spacing : IsSpacing longer) (front : longer <+: c :: cs) :
    longer.length ≤ (firstPiece c cs).matchLength := by
  rcases spacing with ⟨nonempty, blanks⟩ | ⟨comment, noLine, rfl⟩
  · obtain ⟨d, ds, rfl⟩ := List.exists_cons_of_ne_nil nonempty
    obtain ⟨rfl, behind⟩ := List.cons_prefix_cons.1 front
    obtain ⟨first, blanks⟩ := List.forall_mem_cons.1 blanks
    rw [firstPiece_blank first]
    exact Nat.succ_le_succ (length_le_takeWhile blanks behind)
  · have slashes : "//".toList <+: '/' :: '/' :: comment := ⟨comment, rfl⟩
    rw [firstPiece_comment (slashes.trans front)]
    exact length_le_line (by simp [noLine]) front

/-- Whatever any pattern matches at the head of a text, the first piece is no stray text, and it
is no shorter. -/
theorem firstPiece_covers (front : longer <+: c :: cs) (matched : IsMatch longer) :
    longer.length ≤ (firstPiece c cs).matchLength := by
  -- the first character of what is matched tells which scanner is at work
  rcases matched with ⟨kind, matched⟩ | spacing
  · by_cases ident : kind = .ident
    · subst ident
      exact word_length matched front
    have spells := matched.spells ident
    cases hlisted : kind.isListed with
    | true =>
        rw [spells_of_isListed hlisted, List.mem_append] at spells
        rcases spells with listed | listed
        · rw [← String.toList_ofList (l := longer)] at front ⊢
          rw [firstPiece_mark listed front]
          exact markAt_longest listed front
        · exact word_length (isWord_of_reserved listed) front
    | false =>
        cases kind with
        | intLit =>
            obtain ⟨nonempty, digits⟩ := spells
            obtain ⟨d, ds, rfl⟩ := List.exists_cons_of_ne_nil nonempty
            obtain ⟨rfl, -⟩ := List.cons_prefix_cons.1 front
            rw [firstPiece_number (digits d List.mem_cons_self)]
            exact numberAt_length digits front
        | floatLit =>
            obtain ⟨whole, fraction, hwhole, hfraction, rfl⟩ := spells
            obtain ⟨d, ds, rfl⟩ := List.exists_cons_of_ne_nil hwhole.1
            obtain ⟨rfl, -⟩ := List.cons_prefix_cons.1 front
            rw [firstPiece_number (hwhole.2 d List.mem_cons_self)]
            exact numberAt_decimal hwhole hfraction front
        | charLit =>
            obtain ⟨unit, hunit, rfl⟩ := spells
            obtain ⟨rfl, rest, rfl⟩ := List.cons_prefix_cons.1 front
            exact Nat.le_of_eq (congrArg Piece.matchLength (firstPiece_char hunit rest)).symm
        | stringLit =>
            obtain ⟨units, hunits, rfl⟩ := spells
            obtain ⟨rfl, rest, rfl⟩ := List.cons_prefix_cons.1 front
            exact Nat.le_of_eq (congrArg Piece.matchLength (firstPiece_string hunits rest)).symm
        | ident => exact absurd rfl ident
        | _ => exact absurd hlisted (by decide)
  · exact spacing_length spacing front

/-- A lexeme is no shorter than what any pattern matches at its place. -/
theorem firstPiece_longest (found : firstPiece c cs = .lexeme kind text)
    (front : longer <+: c :: cs) (matched : IsMatch longer) : longer.length ≤ text.length := by
  have covers := firstPiece_covers front matched
  rw [found] at covers
  exact covers

/-! ## Lexemes on their own -/

/-- The text of a lexeme is one piece. -/
theorem pieces_alone (spells : kind.Spells cs) : pieces cs = [.lexeme kind cs] := by
  cases cs with
  | nil => exact absurd spells (not_spells_nil kind)
  | cons c cs =>
      obtain ⟨more, rest, rfl, text, split⟩ := exists_pieces_cons c cs
      have found := firstPiece_alone spells
      rw [found] at text split
      obtain rfl : rest = [] := by
        have taken := List.cons.inj text
        simpa using taken.2
      rw [split, pieces]

/-- The text of a lexeme is split into one token, which is that lexeme. -/
theorem tokenize_alone {l : Lexeme} (spells : l.kind.SpellsText l.text) :
    tokenize l.text = .ok [⟨l, ⟨0, l.text.utf8ByteSize⟩⟩, Token.endAt l.text.utf8ByteSize] := by
  unfold tokenize
  rw [pieces_alone spells]
  simp only [placePieces, Piece.text, Except.map, String.ofList_toList, utf8Length_toList,
    Nat.zero_add]

end ProcLang
