import ProcLang.Proofs.Text.Coordinates

/-!
# A diagnostic shows the line of its position

The position in a diagnostic is found by counting the line feeds before a place, the line that is
shown by dividing the whole text into lines. Both are told here from one cut of the text: at the
place, and at the line feeds next to it on both sides (`Surroundings`). There is such a cut at every
place of a text. Whatever the span of an error, also one that is not in the text, its diagnostic
shows the line of this cut, and the carets stand behind as many blanks as characters stand in the
line before the place (`render_shows_line`).
-/

set_option autoImplicit false

namespace ProcLang

/-- A text cut at a place and at the line feeds around it: what stands above the line of the place,
in this line before and behind the place, and from the line feed on that ends it. -/
structure Surroundings (text : List Char) (place : Nat) where
  above : List Char
  start : List Char
  rest : List Char
  below : List Char
  whole : text = above ++ start ++ (rest ++ below)
  place_eq : utf8Length (above ++ start) = place
  above_ended : above = [] ∨ above.getLast? = some '\n'
  start_oneLine : '\n' ∉ start
  rest_oneLine : '\n' ∉ rest
  below_begun : below = [] ∨ below.head? = some '\n'

namespace Surroundings

variable {text : List Char} {place : Nat}

/-- The line of the place as it is shown: without a carriage return at its end, if a line feed is
next. -/
def shown (x : Surroundings text place) : List Char :=
  let line := x.start ++ x.rest
  if x.below.head? = some '\n' ∧ line.getLast? = some '\r' then line.dropLast else line

/-- What stands before a place is some whole lines, and then the beginning of its line. -/
theorem exists_above (before : List Char) :
    ∃ above start, before = above ++ start ∧ (above = [] ∨ above.getLast? = some '\n') ∧
      '\n' ∉ start := by
  by_cases feed : '\n' ∈ before
  · obtain ⟨front, start, rfl, one⟩ := exists_last_line feed
    exact ⟨front ++ ['\n'], start, by simp, .inr List.getLast?_concat, one⟩
  · exact ⟨[], before, rfl, .inl rfl, feed⟩

/-- What stands behind a place is the rest of its line, and then nothing or a line feed. -/
theorem exists_below (behind : List Char) :
    ∃ rest below, behind = rest ++ below ∧ '\n' ∉ rest ∧
      (below = [] ∨ below.head? = some '\n') := by
  by_cases feed : '\n' ∈ behind
  · obtain ⟨rest, below, rfl, one⟩ := List.eq_append_cons_of_mem feed
    exact ⟨rest, '\n' :: below, rfl, one, .inr rfl⟩
  · exact ⟨behind, [], (List.append_nil _).symm, feed, .inl rfl⟩

/-- There is a cut at every place between two characters. -/
theorem nonempty_of_append {before behind : List Char} (split : text = before ++ behind) :
    Nonempty (Surroundings text (utf8Length before)) := by
  obtain ⟨above, start, rfl, ended, startLine⟩ := exists_above before
  obtain ⟨rest, below, rfl, restLine, begun⟩ := exists_below behind
  exact ⟨above, start, rest, below, split, rfl, ended, startLine, restLine, begun⟩

variable (x : Surroundings text place)

/-- Only the lines above have line feeds before the place. -/
theorem count_before : (x.above ++ x.start).count '\n' = x.above.count '\n' := by
  rw [List.count_append, List.count_eq_zero.2 x.start_oneLine, Nat.add_zero]

/-- Behind the last line feed before the place stands the beginning of its line. -/
theorem lineStart_before : lineStart (x.above ++ x.start) = x.start := by
  rcases x.above_ended with none | ended
  · rw [none, List.nil_append, lineStart_of_not_mem x.start_oneLine]
  · obtain ⟨front, split⟩ := List.getLast?_eq_some_iff.1 ended
    rw [split, List.append_assoc, List.singleton_append,
      lineStart_append_line front x.start_oneLine]

/-- The line goes on up to the next line feed behind the place. -/
theorem takeWhile_behind : (x.rest ++ x.below).takeWhile (· != '\n') = x.rest := by
  refine (takeWhile_run (forall_ne_line x.rest_oneLine) ?_).1
  rcases x.below_begun with none | begun
  · simp [none]
  · simp [begun]

/-- A line feed follows the line if there is one behind the place. -/
theorem mem_behind : '\n' ∈ x.rest ++ x.below ↔ x.below.head? = some '\n' := by
  constructor
  · intro feed
    rcases x.below_begun with none | begun
    · rw [none, List.append_nil] at feed
      exact absurd feed x.rest_oneLine
    · exact begun
  · intro begun
    exact List.mem_append_right _ (List.mem_of_head? begun)

theorem shownLine_eq : shownLine (x.above ++ x.start) (x.rest ++ x.below) = x.shown := by
  rw [shownLine, shown, x.lineStart_before, x.takeWhile_behind]
  simp only [x.mem_behind]

end Surroundings

namespace Source

variable {s : Source} {offset : Nat}

/-- An offset has the position of its floor. -/
theorem position_floor (s : Source) (offset : Nat) :
    s.position (s.floor offset) = s.position offset := by
  obtain ⟨behind, whole⟩ := s.exists_front offset
  rw [s.position_eq_foldl offset, floor]
  generalize takeFitting offset s.content.toList = front at whole ⊢
  rw [position, whole, Position.afterBytes_prefix]

/-- The position of an offset counts the lines above the place and the characters before it. -/
theorem position_eq (x : Surroundings s.content.toList (s.floor offset)) :
    s.position offset = ⟨1 + x.above.count '\n', 1 + x.start.length⟩ := by
  have counts := position_of_append x.whole
  rwa [x.place_eq, position_floor, x.count_before, x.lineStart_before] at counts

/-- The line of an offset is the one around its floor. -/
theorem line_eq (x : Surroundings s.content.toList (s.floor offset)) :
    s.line (s.position offset).line = x.shown := by
  rw [← x.shownLine_eq, ← line_of_append x.whole, x.count_before, position_eq x]

end Source

/-- A diagnostic shows the line around the place of its error. The place is the last one between
two characters that is within the start of the span, whatever the span is. The text has a cut
around it, and for this cut the diagnostic gives, with the name and the description, the line and
the column of the place, counted from one: there are as many lines above as line feeds, and as many
columns before as characters in the line. Then comes the line, without a carriage return before the
line feed that ends it, and under it stand as many blanks as characters before the place, and one
caret for each character of the offending text, or one if there is none. -/
theorem render_shows_line (s : Source) (e : SyntaxError) :
    let place := s.floor e.span.start
    IsGreatest {place | (⟨place⟩ : String.Pos.Raw).IsValid s.content ∧
      place ≤ min e.span.start s.content.utf8ByteSize} place ∧
    Nonempty (Surroundings s.content.toList place) ∧
    ∀ x : Surroundings s.content.toList place,
      let line := 1 + x.above.count '\n'
      let column := 1 + x.start.length
      s.position e.span.start = ⟨line, column⟩ ∧
      s.render e =
        s.name ++ ":" ++ Nat.repr line ++ ":" ++ Nat.repr column ++
          ": error: " ++ e.message ++ "\n" ++
        String.ofList (Source.lineLabel line) ++ " | " ++ String.ofList x.shown ++ "\n" ++
        "     | " ++ String.ofList (List.replicate x.start.length ' ' ++
          List.replicate (max 1 e.text.length) '^') ++ "\n" := by
  intro place
  refine ⟨s.isGreatest_floor e.span.start, ?_, fun x => ?_⟩
  · obtain ⟨behind, whole⟩ := s.exists_front e.span.start
    exact Surroundings.nonempty_of_append whole
  · intro line column
    have position : s.position e.span.start = ⟨line, column⟩ := Source.position_eq x
    refine ⟨position, ?_⟩
    have blanks : column - 1 = x.start.length := Nat.add_sub_cancel_left 1 _
    have shown := Source.line_eq x
    rw [position] at shown
    rw [Source.render, position, Source.caretRow, blanks, shown]

/-- An offset inside a character and one behind a last line feed. -/
example :
    (Source.unnamed "é\r\n").render ⟨"?", ⟨1, 9⟩⟩ =
        "<input>:1:1: error: unexpected token `?`\n   1 | é\n     | ^\n" ∧
      (Source.unnamed "é\r\n").render ⟨"", ⟨9, 1⟩⟩ =
        "<input>:2:1: error: unexpected end of input\n   2 | \n     | ^\n" := by
  decide

end ProcLang
