import ProcLang.Parse.Account
import ProcLang.Proofs.Lexical.Lossless
import ProcLang.Proofs.Lexical.Stray

/-!
# Errors point at the source

A syntax error carries the slice of the source at its span (`error_points_at_text`). A lexical
error is a stray piece of the text; an error of the parser is the token under its reading head,
and that is a token of the source or the end marker.
-/

set_option autoImplicit false

namespace ProcLang

/-- The message names a token unless there is none. -/
theorem SyntaxError.message_eq_iff (e : SyntaxError) :
    e.message = "unexpected end of input" ↔ e.text = "" := by
  unfold message
  by_cases none : e.text = ""
  · rw [if_pos none]
    exact ⟨fun _ => none, fun _ => rfl⟩
  · rw [if_neg none]
    refine ⟨fun same => ?_, fun text => absurd text none⟩
    have letters := congrArg String.toList same
    simp at letters

/-- A lexical error is stray text, and where it stands. -/
theorem placePieces_eq_error {offset : Nat} {cs : List Char} {e : SyntaxError}
    (h : placePieces offset (pieces cs) = .error e) :
    ∃ before text rest, cs = before ++ (text ++ rest) ∧ text ≠ [] ∧ '\n' ∉ text ∧
      e = ⟨String.ofList text,
        ⟨offset + utf8Length before, offset + utf8Length before + utf8Length text⟩⟩ := by
  obtain ⟨before, c, more, rest, whole, -, found, place⟩ := placePieces_stray h
  exact ⟨before, c :: more, rest, whole, List.cons_ne_nil c more, firstPiece_stray found, place⟩

/-! ## Errors of a source -/

/-- A lexical error is a text of the source. -/
theorem tokenize_eq_error {source : String} {e : SyntaxError} (h : tokenize source = .error e) :
    e.span.Within source ∧ e.span.slice source = e.text ∧ '\n' ∉ e.text.toList ∧ e.text ≠ "" := by
  obtain ⟨before, text, rest, whole, nonempty, noLine, rfl⟩ := placePieces_eq_error h
  simp only [Nat.zero_add, String.toList_ofList]
  refine ⟨Span.within_of_append whole, Span.slice_of_append whole, noLine, fun none => nonempty ?_⟩
  rw [← String.toList_ofList (l := text), none]
  rfl

/-- An error of the parser is a token of the source that is left, or the end of the source, at
which none is left. -/
theorem readProgram_eq_error {source : String} {tokens : List Token}
    (lexed : tokenize source = .ok tokens) {e : SyntaxError}
    (refused : (TokenStream.ofTokens tokens).readProgram.result = .error e) :
    ((TokenStream.ofTokens tokens).readProgram.left.ahead = [] ∧
      e = ⟨"", ⟨source.utf8ByteSize, source.utf8ByteSize⟩⟩) ∨
    ∃ t behind, (TokenStream.ofTokens tokens).readProgram.left.ahead = t :: behind ∧
      e = ⟨t.text, t.span⟩ ∧ TokenOf source t := by
  obtain ⟨front, n, rfl, lex, -⟩ := tokenize_eq_ok lexed
  obtain ⟨front', split, tokenOf⟩ := tokenOf_of_mem lexed
  obtain ⟨rfl, marks⟩ := List.append_inj' split rfl
  rw [marks] at refused ⊢
  rw [ofTokens_append_endAt lex] at refused ⊢
  have error := (Parser.read_result_eq_error.1 refused).2
  have left := Parser.read_left (nestedParsers nestingLimit).program
    ⟨front, Token.endAt source.utf8ByteSize⟩
  have accounts := Parser.accounts_compatible.program
    (nestedParsers_related Parser.accounts_compatible.toComposable nestingLimit)
  have behind := (accounts.rest_isSuffix front).subset
  -- the error is that of the token at which the parser stopped
  generalize ((nestedParsers nestingLimit).program front).rest = rest at left behind
  rw [left] at error
  cases rest with
  | nil => exact .inl ⟨congrArg TokenStream.ahead left, error⟩
  | cons t behind' =>
      have tokenOf := tokenOf t (behind List.mem_cons_self)
      exact .inr ⟨t, behind', congrArg TokenStream.ahead left, error, tokenOf⟩

/-- Diagnostics point at the source. The span of an error lies in the source, on character
boundaries, and the text of the error is the slice of the source there, without a line feed.
The text is empty, and the message tells of the end of the input, exactly if the span is the
end of the source; and that is so exactly if the source splits into tokens and the parser has
consumed all of them. -/
theorem error_points_at_text (source : String) (e : SyntaxError)
    (refused : parseSource source = .error e) :
    e.span.Within source ∧ e.span.slice source = e.text ∧ '\n' ∉ e.text.toList ∧
    (e.message = "unexpected end of input" ↔ e.text = "") ∧
    (e.text = "" ↔ e.span = ⟨source.utf8ByteSize, source.utf8ByteSize⟩) ∧
    (e.span = ⟨source.utf8ByteSize, source.utf8ByteSize⟩ ↔
      ∃ tokens, tokenize source = .ok tokens ∧
        (TokenStream.ofTokens tokens).readProgram.left.ahead = []) := by
  -- where the span is the end of the source, the slice is empty
  have atEnd (slice : e.span.slice source = e.text)
      (span : e.span = ⟨source.utf8ByteSize, source.utf8ByteSize⟩) : e.text = "" := by
    rw [← slice, span, Span.slice_end]
  cases lexed : tokenize source with
  | error e' =>
      rw [parseSource, lexed] at refused
      obtain rfl : e' = e := Except.error.inj refused
      obtain ⟨within, slice, noLine, nonempty⟩ := tokenize_eq_error lexed
      refine ⟨within, slice, noLine, e'.message_eq_iff,
        ⟨fun none => absurd none nonempty, atEnd slice⟩,
        fun span => absurd (atEnd slice span) nonempty, ?_⟩
      rintro ⟨tokens, split, -⟩
      cases split
  | ok tokens =>
      rw [parseSource, lexed] at refused
      rcases readProgram_eq_error lexed refused with ⟨left, rfl⟩ | ⟨t, behind, left, rfl, tokenOf⟩
      · refine ⟨Span.within_end source, Span.slice_end source, ?_, SyntaxError.message_eq_iff _,
          ⟨fun _ => rfl, fun _ => rfl⟩, fun _ => ⟨tokens, rfl, left⟩, fun _ => rfl⟩
        exact List.not_mem_nil
      · have slice := tokenOf.slice
        have nonempty := tokenOf.nonempty
        refine ⟨tokenOf.within, slice, tokenOf.matched.no_line, SyntaxError.message_eq_iff _,
          ⟨fun none => absurd none nonempty, atEnd slice⟩,
          fun span => absurd (atEnd slice span) nonempty, ?_⟩
        rintro ⟨tokens', split, consumed⟩
        obtain rfl := Except.ok.inj split
        rw [left] at consumed
        exact absurd consumed (List.cons_ne_nil t behind)

set_option maxRecDepth 100000 in
/-- A character of two bytes that begins nothing, and a source that ends too early. -/
theorem error_points_at_text_stray_and_end :
    (parseSource "int é;" = .error ⟨"é", ⟨4, 6⟩⟩ ∧ (Span.mk 4 6).slice "int é;" = "é") ∧
      parseSource "int f()" = .error ⟨"", ⟨7, 7⟩⟩ ∧
      ∃ tokens, tokenize "int f()" = .ok tokens ∧
        (TokenStream.ofTokens tokens).readProgram.left.ahead = [] := by
  have stray : parseSource "int é;" = .error ⟨"é", ⟨4, 6⟩⟩ := by cbv
  have early : parseSource "int f()" = .error ⟨"", ⟨7, 7⟩⟩ := by cbv
  obtain ⟨-, slice, -⟩ := error_points_at_text _ _ stray
  obtain ⟨-, -, -, -, -, consumed⟩ := error_points_at_text _ _ early
  exact ⟨⟨stray, slice⟩, early, consumed.1 (by decide)⟩

end ProcLang
