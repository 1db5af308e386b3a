import ProcLang.Lexical.Piece

/-!
# Pieces tile the text

Every piece is a nonempty front part of the text it was found in, so the pieces of a
text, one after another, are the text (`pieces_text`).
-/

set_option autoImplicit false

namespace ProcLang

/-- The complete units after a quote are a front part of the text. -/
theorem quotedRun_isPrefix (quote : Char) (cs : List Char) : quotedRun quote cs <+: cs := by
  fun_induction quotedRun quote cs with
  | case1 => exact List.prefix_rfl
  | case2 c plain => exact List.prefix_rfl
  | case3 c plain => exact List.nil_prefix
  | case4 cs => exact List.nil_prefix
  | case5 d cs escapable ih =>
      obtain ⟨rest, hrest⟩ := ih
      exact ⟨rest, by simp [hrest]⟩
  | case6 c d cs unescaped plain ih =>
      obtain ⟨rest, hrest⟩ := ih
      exact ⟨rest, by simp [hrest]⟩
  | case7 => exact List.nil_prefix

theorem numberAt_isPrefix (cs : List Char) : (numberAt cs).text <+: cs := by
  have whole := List.takeWhile_append_dropWhile (p := Char.isDigit) (l := cs)
  unfold numberAt
  simp only
  split
  next rest point =>
    split
    · exact List.takeWhile_prefix _
    · obtain ⟨more, hmore⟩ := List.takeWhile_prefix (l := rest) Char.isDigit
      rw [point] at whole
      refine ⟨more, ?_⟩
      show cs.takeWhile Char.isDigit ++ '.' :: rest.takeWhile Char.isDigit ++ more = cs
      rw [List.append_assoc, List.cons_append, hmore, whole]
  next => exact List.takeWhile_prefix _

theorem stringAfter_isPrefix (cs : List Char) : (stringAfter cs).text <+: '"' :: cs := by
  obtain ⟨rest, hrest⟩ := quotedRun_isPrefix '"' cs
  unfold stringAfter
  generalize quotedRun '"' cs = body at hrest
  subst hrest
  simp only [List.drop_left]
  split
  next more => exact ⟨more, by simp [Piece.text]⟩
  next => exact ⟨rest, by simp [Piece.text]⟩

theorem charAfter_isPrefix (cs : List Char) : (charAfter cs).text <+: '\'' :: cs := by
  unfold charAfter
  split
  next c rest => split <;> simp [Piece.text]
  next c rest escaped => split <;> simp [Piece.text]
  next => simp [Piece.text]

/-- The operator found at the head of a text is a front part of it. -/
theorem operatorAt?_isPrefix {cs : List Char} {spelling : String} {kind : TokenKind}
    (found : operatorAt? cs = some (spelling, kind)) : spelling.toList <+: cs := by
  unfold operatorAt? at found
  have fits := List.find?_some found
  exact List.isPrefixOf_iff_prefix.1 fits

/-- No operator is spelled by the empty text. -/
theorem operators_ne_nil : ∀ op ∈ operators, op.1.toList ≠ [] := by
  decide

theorem markAt_isPrefix (c : Char) (cs : List Char) : (markAt c cs).text <+: c :: cs := by
  unfold markAt
  split
  · exact List.takeWhile_prefix _
  · split
    next spelling kind found => exact operatorAt?_isPrefix found
    next => exact ⟨cs, rfl⟩

/-- The first piece is a front part of the text. -/
theorem firstPiece_isPrefix (c : Char) (cs : List Char) :
    (firstPiece c cs).text <+: c :: cs := by
  unfold firstPiece
  split
  · obtain ⟨rest, hrest⟩ := List.takeWhile_prefix (l := cs) isBlank
    exact ⟨rest, by simp [Piece.text, hrest]⟩
  split
  · exact numberAt_isPrefix (c :: cs)
  split
  · exact List.takeWhile_prefix _
  split
  next isQuote => rw [isQuote]; exact stringAfter_isPrefix cs
  split
  next isQuote => rw [isQuote]; exact charAfter_isPrefix cs
  next => exact markAt_isPrefix c cs

/-- The first piece holds at least one character. -/
theorem firstPiece_ne_nil (c : Char) (cs : List Char) : (firstPiece c cs).text ≠ [] := by
  unfold firstPiece
  split
  · simp [Piece.text]
  split
  next digit =>
    unfold numberAt
    simp only
    split
    · split <;> simp [Piece.text, digit]
    · simp [Piece.text, digit]
  split
  next start =>
    have word : isWordChar c = true := isWordChar_of_isWordStart start
    simp [wordAt, Piece.text, word]
  split
  · unfold stringAfter
    simp only
    split <;> simp [Piece.text]
  split
  · unfold charAfter
    split
    next => split <;> simp [Piece.text]
    next => split <;> simp [Piece.text]
    next => simp [Piece.text]
  · unfold markAt
    split
    next comment =>
      have first : c = '/' := by
        have := List.isPrefixOf_iff_prefix.1 comment
        exact (List.cons_prefix_cons.1 this).1.symm
      simp [Piece.text, first]
    next =>
      split
      next spelling kind found =>
        exact operators_ne_nil _ (List.mem_of_find?_eq_some found)
      next => simp [Piece.text]

/-- The pieces of a text, one after another, are the text. -/
theorem pieces_text (cs : List Char) : (pieces cs).flatMap Piece.text = cs := by
  fun_induction pieces cs with
  | case1 => rfl
  | case2 c cs p ih =>
      obtain ⟨rest, hrest⟩ := firstPiece_isPrefix c cs
      obtain ⟨d, ds, htext⟩ := List.exists_cons_of_ne_nil (firstPiece_ne_nil c cs)
      have hdrop : cs.drop (p.text.length - 1) = rest := by
        show cs.drop ((firstPiece c cs).text.length - 1) = rest
        rw [htext] at hrest ⊢
        obtain ⟨-, htail⟩ := List.cons.inj hrest
        rw [← htail]
        simp
      rw [List.flatMap_cons, ih, hdrop]
      exact hrest

end ProcLang
