import Mathlib.Data.Nat.Digits.Lemmas
import ProcLang.Proofs.Diagnostics
import ProcLang.Proofs.Text.Lines

/-!
# Carets under the offending text

A diagnostic shows the line on which an error begins, and carets under the offending text.
Lines are counted by line feeds alone, but a carriage return before a line feed is not shown.
So the carets stand under the whole text, unless the text itself ends in such a carriage
return: then it is shown without it, and one caret goes past the end of the line
(`carets_underline`). That happens where a literal is not closed on its line. From line 10000
on, moreover, the number of the line is wider than the blanks before the carets.
-/

set_option autoImplicit false

namespace ProcLang

/-- The text of the error stands in the shown line from its column on; if it is empty, the
column is the one behind the line. -/
def Source.Underlines (s : Source) (e : SyntaxError) : Prop :=
  ∃ before behind,
    s.line (s.position e.span.start).line = before ++ (e.text.toList ++ behind) ∧
      before.length = (s.position e.span.start).column - 1 ∧ (e.text = "" → behind = [])

/-! ## Texts in a line -/

section Shown

variable {before text behind : List Char}

/-- The line around the beginning of a text that stands in one line. -/
theorem shownLine_text (one : '\n' ∉ text) :
    shownLine before (text ++ behind) =
      let line := lineStart before ++ (text ++ behind.takeWhile (· != '\n'))
      if '\n' ∈ behind ∧ line.getLast? = some '\r' then line.dropLast else line := by
  rw [shownLine, List.takeWhile_append_of_pos (forall_ne_line one)]
  simp only [List.mem_append, one, false_or]

/-- A line ends at the end of the text or where a line feed is next. -/
theorem takeWhile_eq_nil (ended : behind.takeWhile (· != '\n') = []) :
    behind = [] ∨ behind.head? = some '\n' := by
  cases behind with
  | nil => exact .inl rfl
  | cons c behind =>
      refine .inr (congrArg some ?_)
      by_contra other
      rw [List.takeWhile_cons, if_pos (bne_iff_ne.2 other)] at ended
      cases ended

/-- A text that ends in a carriage return before a line feed is shown without it. -/
theorem shownLine_of_return (one : '\n' ∉ text) (last : text.getLast? = some '\r')
    (next : behind.head? = some '\n') :
    shownLine before (text ++ behind) = lineStart before ++ text.dropLast := by
  obtain ⟨rest, rfl⟩ := List.head?_eq_some_iff.1 next
  have ends : (lineStart before ++ text).getLast? = some '\r' := by
    rw [List.getLast?_append, last, Option.some_or]
  have nonempty : text ≠ [] := by
    rintro rfl
    cases last
  rw [shownLine_text one, List.takeWhile_cons_of_neg (by decide), List.append_nil]
  exact (if_pos ⟨List.mem_cons_self, ends⟩).trans (List.dropLast_append_of_ne_nil nonempty)

/-- Any other text is shown as it is; behind the end of the source nothing is shown. -/
theorem shownLine_of_plain (one : '\n' ∉ text) (proper : text = [] → behind = [])
    (plain : ¬ (text.getLast? = some '\r' ∧ behind.head? = some '\n')) :
    ∃ after, shownLine before (text ++ behind) = lineStart before ++ (text ++ after) ∧
      (text = [] → after = []) := by
  rw [shownLine_text one]
  by_cases cut : '\n' ∈ behind ∧
      (lineStart before ++ (text ++ behind.takeWhile (· != '\n'))).getLast? = some '\r'
  · -- the carriage return that is cut off stands behind the text
    have more : behind.takeWhile (· != '\n') ≠ [] := by
      intro ended
      obtain ⟨feed, ends⟩ := cut
      have nonempty : text ≠ [] := fun none => by
        rw [proper none] at feed
        cases feed
      rw [ended, List.append_nil, List.getLast?_append_of_ne_nil _ nonempty] at ends
      rcases takeWhile_eq_nil ended with none | next
      · rw [none] at feed
        cases feed
      · exact plain ⟨ends, next⟩
    refine ⟨(behind.takeWhile (· != '\n')).dropLast, (if_pos cut).trans ?_, fun none => ?_⟩
    · rw [List.dropLast_append_of_ne_nil (List.append_ne_nil_of_right_ne_nil _ more),
        List.dropLast_append_of_ne_nil more]
    · rw [proper none]
      rfl
  · refine ⟨behind.takeWhile (· != '\n'), if_neg cut, fun none => ?_⟩
    rw [proper none]
    rfl

end Shown

/-! ## Errors of a source -/

/-- An error has a text of the source that stands in one line, and none only at the end. -/
theorem parseSource_eq_error {source : String} {e : SyntaxError}
    (refused : parseSource source = .error e) :
    ∃ before behind, source.toList = before ++ (e.text.toList ++ behind) ∧
      e.span.start = utf8Length before ∧
      e.span.stop = utf8Length before + utf8Length e.text.toList ∧
      '\n' ∉ e.text.toList ∧ (e.text = "" → behind = []) := by
  cases lexed : tokenize source with
  | error e' =>
      rw [parseSource, lexed] at refused
      obtain rfl : e' = e := Except.error.inj refused
      obtain ⟨within, slice, one, nonempty⟩ := tokenize_eq_error lexed
      obtain ⟨before, behind, split, start, stop⟩ := within.split slice
      exact ⟨before, behind, split, start, stop, one, fun none => absurd none nonempty⟩
  | ok tokens =>
      rw [parseSource, lexed] at refused
      rcases readProgram_eq_error lexed refused with ⟨-, rfl⟩ | ⟨t, -, -, rfl, tokenOf⟩
      · have size := (utf8Length_toList source).symm
        exact ⟨source.toList, [], (List.append_nil _).symm, size, size, List.not_mem_nil,
          fun _ => rfl⟩
      · obtain ⟨before, behind, split, start, stop⟩ := tokenOf.within.split tokenOf.slice
        exact ⟨before, behind, split, start, stop, tokenOf.matched.no_line,
          fun none => absurd none tokenOf.nonempty⟩

/-- The label of a line is four characters wide up to line 9999. -/
theorem Source.lineLabel_length (number : Nat) :
    (lineLabel number).length = 4 ↔ number < 10000 := by
  have digits : (Nat.repr number).toList.length ≤ 4 ↔ number < 10 ^ 4 := by
    rw [Nat.repr, String.toList_ofList]
    exact Nat.length_toDigits_le_iff (by decide) (by decide)
  rw [lineLabel, List.length_append, List.length_replicate]
  omega

/-- The carets of a diagnostic stand under the offending text. The diagnostic writes the shown line,
and under it as many blanks as there are columns before the one of the error, and the carets. The
text of an error stands in the shown line from the column of the error on, and if there is none
the column is the one behind the line, unless the text ends in a carriage return and a line feed
is next in the source: then the line ends with the text, but the carriage return is not shown and
the last caret stands under nothing. The label before the line is as wide as the blanks before
the carets up to line 9999. -/
theorem carets_underline (name source : String) (e : SyntaxError)
    (refused : parseSource source = .error e) :
    let s : Source := ⟨name, source⟩
    let place := s.position e.span.start
    s.render e =
      name ++ ":" ++ Nat.repr place.line ++ ":" ++ Nat.repr place.column ++
        ": error: " ++ e.message ++ "\n" ++
      String.ofList (Source.lineLabel place.line) ++ " | " ++
        String.ofList (s.line place.line) ++ "\n" ++
      "     | " ++ String.ofList (List.replicate (place.column - 1) ' ' ++
        List.replicate (max 1 e.text.length) '^') ++ "\n" ∧
    (s.Underlines e ↔ ¬ (e.text.toList.getLast? = some '\r' ∧
      (textFrom source e.span.stop).head? = some '\n')) ∧
    (¬ s.Underlines e → ∃ before, s.line place.line = before ++ e.text.toList.dropLast ∧
      before.length = place.column - 1) ∧
    ((Source.lineLabel place.line).length = 4 ↔ place.line < 10000) := by
  intro s place
  obtain ⟨before, behind, split, start, stop, one, proper⟩ := parseSource_eq_error refused
  have position : place = ⟨1 + before.count '\n', 1 + (lineStart before).length⟩ := by
    rw [← Source.position_of_append (s := s) split, ← start]
  have shown : s.line place.line = shownLine before (e.text.toList ++ behind) := by
    rw [position, Source.line_of_append split]
  have column : (lineStart before).length = place.column - 1 := by
    rw [position, Nat.add_sub_cancel_left]
  have next : textFrom source e.span.stop = behind := by
    rw [← List.append_assoc] at split
    rw [stop, ← utf8Length_append, textFrom_of_append split]
  have proper : e.text.toList = [] → behind = [] := fun none =>
    proper (String.toList_eq_nil_iff.1 none)
  rw [next]
  have underlined (plain : ¬ (e.text.toList.getLast? = some '\r' ∧ behind.head? = some '\n')) :
      s.Underlines e := by
    obtain ⟨after, line, atEnd⟩ := shownLine_of_plain one proper plain
    exact ⟨lineStart before, after, shown.trans line, column,
      fun none => atEnd (String.toList_eq_nil_iff.2 none)⟩
  refine ⟨rfl, ⟨?_, underlined⟩, fun off => ?_, Source.lineLabel_length place.line⟩
  · -- without its last character the text is too short
    rintro ⟨front, after, line, length, -⟩ ⟨last, feed⟩
    have lengths := congrArg List.length
      (line.symm.trans (shown.trans (shownLine_of_return one last feed)))
    have nonempty : e.text.toList.length ≠ 0 := fun none => by
      rw [List.length_eq_zero_iff.1 none] at last
      cases last
    rw [List.length_append, List.length_append, List.length_append, List.length_dropLast, length,
      ← column] at lengths
    omega
  · obtain ⟨last, feed⟩ := not_not.1 (mt underlined off)
    exact ⟨lineStart before, shown.trans (shownLine_of_return one last feed), column⟩

set_option maxRecDepth 100000 in
/-- A carriage return behind the offending text is not in the way; one at its end is. -/
theorem carets_underline_returns :
    (parseSource "int a;\r\nb c\r\n" = .error ⟨"b", ⟨8, 9⟩⟩ ∧
      Source.render ⟨"main.c", "int a;\r\nb c\r\n"⟩ ⟨"b", ⟨8, 9⟩⟩ =
        "main.c:2:1: error: unexpected token `b`\n   2 | b c\n     | ^\n" ∧
      Source.Underlines ⟨"main.c", "int a;\r\nb c\r\n"⟩ ⟨"b", ⟨8, 9⟩⟩) ∧
    (parseSource "\"é\r\n" = .error ⟨"\"é\r", ⟨0, 4⟩⟩ ∧
      ∃ before, Source.line ⟨"main.c", "\"é\r\n"⟩ 1 = before ++ ['"', 'é']) := by
  have inside : parseSource "int a;\r\nb c\r\n" = .error ⟨"b", ⟨8, 9⟩⟩ := by cbv
  have literal : parseSource "\"é\r\n" = .error ⟨"\"é\r", ⟨0, 4⟩⟩ := by cbv
  obtain ⟨-, underlined, -⟩ := carets_underline "main.c" _ _ inside
  obtain ⟨-, off, cut, -⟩ := carets_underline "main.c" _ _ literal
  have next : (textFrom "\"é\r\n" 4).head? = some '\n' := by cbv
  obtain ⟨before, line, -⟩ := cut (mt off.1 (not_not.2 ⟨by decide, next⟩))
  exact ⟨⟨inside, by decide, underlined.2 (by decide)⟩, literal, before, line⟩

set_option maxRecDepth 100000 in
/-- A literal that is not closed before the end of its line is shown without the carriage
return: three carets stand under a line of two characters. -/
theorem carets_go_past_line :
    parseSource "\"a\r\nb" = .error ⟨"\"a\r", ⟨0, 3⟩⟩ ∧
      Source.render ⟨"main.c", "\"a\r\nb"⟩ ⟨"\"a\r", ⟨0, 3⟩⟩ =
        "main.c:1:1: error: unexpected token `\"a\r`\n   1 | \"a\n     | ^^^\n" ∧
      Source.line ⟨"main.c", "\"a\r\nb"⟩ 1 = ['"', 'a'] ∧
      Source.caretRow 1 "\"a\r" = ['^', '^', '^'] ∧
      ¬ Source.Underlines ⟨"main.c", "\"a\r\nb"⟩ ⟨"\"a\r", ⟨0, 3⟩⟩ := by
  have line : Source.line ⟨"main.c", "\"a\r\nb"⟩ 1 = ['"', 'a'] := by decide
  refine ⟨by cbv, by decide, line, by decide, ?_⟩
  rintro ⟨before, behind, shown, -⟩
  have lengths : 2 = _ := congrArg List.length (line.symm.trans shown)
  rw [List.length_append, List.length_append] at lengths
  have three : (SyntaxError.mk "\"a\r" ⟨0, 3⟩).text.toList.length = 3 := by decide
  omega

end ProcLang
