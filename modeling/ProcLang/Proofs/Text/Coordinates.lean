import Mathlib.Data.List.SplitBy
import Mathlib.Data.Prod.Lex
import Mathlib.Order.Bounds.Basic
import ProcLang.Proofs.Text.Lines
import ProcLang.Text.Slice

/-!
# Positions are coordinates of the places in a text

An offset stands for the last place between two characters that is not behind it, the floor of
the offset. The position of an offset names this place: the lines before it, each with its line
feed, and the characters before it in its own line have together as many bytes as stand before
the place (`Position.Names`). Passing one more character leads to a greater position, so
positions follow the order of the places and tell any two of them apart
(`position_faithful`).
-/

set_option autoImplicit false

namespace ProcLang

/-! ## Places -/

/-- The last place between two characters of a source within the first `offset` bytes. -/
def Source.floor (s : Source) (offset : Nat) : Nat :=
  utf8Length (takeFitting offset s.content.toList)

theorem Source.exists_front (s : Source) (offset : Nat) :
    ∃ behind, s.content.toList = takeFitting offset s.content.toList ++ behind := by
  obtain ⟨behind, whole⟩ := takeFitting_isPrefix offset s.content.toList
  exact ⟨behind, whole.symm⟩

/-- No other place within the offset is further on. -/
theorem Source.isGreatest_floor (s : Source) (offset : Nat) :
    IsGreatest {place | (⟨place⟩ : String.Pos.Raw).IsValid s.content ∧
      place ≤ min offset s.content.utf8ByteSize} (s.floor offset) := by
  obtain ⟨behind, whole⟩ := s.exists_front offset
  constructor
  · have size : s.content.utf8ByteSize = s.floor offset + utf8Length behind := by
      rw [← utf8Length_toList, floor, ← utf8Length_append, ← whole]
    have inside : s.floor offset ≤ s.content.utf8ByteSize := size ▸ Nat.le_add_right _ _
    exact ⟨Span.isValid_of_append whole, Nat.le_min.2 ⟨takeFitting_fits .., inside⟩⟩
  · rintro place ⟨valid, within⟩
    obtain ⟨before, rest, split, start⟩ := String.Pos.Raw.isValid_iff_exists_append.1 valid
    have start : place = utf8Length before.toList :=
      (congrArg String.Pos.Raw.byteIdx start).trans (utf8Length_toList before).symm
    have front : before.toList <+: s.content.toList := by
      rw [split, String.toList_append]
      exact List.prefix_append _ _
    obtain ⟨more, taken⟩ := prefix_takeFitting front (start ▸ (Nat.le_min.1 within).1)
    rw [start, floor, ← taken, utf8Length_append]
    exact Nat.le_add_right _ _

/-! ## Lines with their line feeds -/

/-- A text cut behind every line feed. -/
def cutLines (text : List Char) : List (List Char) :=
  text.splitBy fun c _ => c != '\n'

theorem flatten_cutLines (text : List Char) : (cutLines text).flatten = text :=
  List.flatten_splitBy ..

/-- The cut behind a line feed. -/
theorem cutLines_behind (cs ds : List Char) :
    cutLines (cs ++ '\n' :: ds) = cutLines (cs ++ ['\n']) ++ cutLines ds := by
  have whole : cs ++ '\n' :: ds = (cs ++ ['\n']) ++ ds := by
    rw [List.append_assoc, List.singleton_append]
  rw [whole]
  refine List.splitBy_append fun c last d _ => ?_
  obtain rfl : '\n' = c := by simpa using last
  rfl

/-- A stretch without a line feed is one line, up to the line feed behind it. -/
theorem cutLines_line {cs : List Char} (one : '\n' ∉ cs) : cutLines (cs ++ ['\n']) = [cs ++ ['\n']] := by
  refine List.splitBy_of_isChain (List.append_ne_nil_of_right_ne_nil _ (List.cons_ne_nil _ _)) ?_
  induction cs with
  | nil => exact .singleton _
  | cons c cs ih =>
      obtain ⟨other, one⟩ := not_or.1 (mt List.mem_cons.2 one)
      exact (ih one).cons fun d _ => bne_iff_ne.2 (Ne.symm other)

/-- Before a line feed stand as many lines as there are line feeds. -/
theorem length_cutLines (cs : List Char) : (cutLines (cs ++ ['\n'])).length = cs.count '\n' + 1 := by
  -- the induction is on the length, from one line to the text behind its line feed
  induction hn : cs.length using Nat.strongRecOn generalizing cs with
  | ind n ih =>
    subst hn
    by_cases line : '\n' ∈ cs
    · obtain ⟨first, others, rfl, one⟩ := List.eq_append_cons_of_mem line
      have shorter : others.length < (first ++ '\n' :: others).length := by
        rw [List.length_append, List.length_cons]
        omega
      rw [List.append_assoc, List.cons_append, cutLines_behind, cutLines_line one, List.length_append,
        ih others.length shorter others rfl, List.count_append, List.count_cons_self,
        List.count_eq_zero.2 one, List.length_singleton]
      omega
    · rw [cutLines_line line, List.count_eq_zero.2 line]
      rfl

/-- A front part of a text is some whole lines, and then the beginning of the next one. -/
theorem exists_cutLines (front behind : List Char) :
    ∃ lines start, front = lines ++ start ∧ '\n' ∉ start ∧
      (cutLines lines).length = front.count '\n' ∧ lineStart front = start ∧
      cutLines (front ++ behind) = cutLines lines ++ cutLines (start ++ behind) := by
  by_cases feed : '\n' ∈ front
  · obtain ⟨before, start, rfl, one⟩ := exists_last_line feed
    refine ⟨before ++ ['\n'], start, by simp, one, ?_, lineStart_append_line before one, ?_⟩
    · rw [length_cutLines, List.count_append, List.count_cons_self, List.count_eq_zero.2 one,
        Nat.zero_add]
    · rw [List.append_assoc, List.cons_append, cutLines_behind]
  · exact ⟨[], front, rfl, feed, (List.count_eq_zero.2 feed).symm, lineStart_of_not_mem feed, rfl⟩

/-! ## Positions -/

namespace Position

/-- The position of an offset is reached by passing the characters that fit into it. -/
theorem afterBytes_eq_foldl (p : Position) (offset : Nat) (cs : List Char) :
    p.afterBytes offset cs = (takeFitting offset cs).foldl next p := by
  induction cs generalizing p offset with
  | nil => rfl
  | cons c cs ih =>
      rw [afterBytes, takeFitting]
      split
      · exact ih (p.next c) _
      · rfl

/-- The position names the place that has `place` bytes of the text before it: so many have the
lines before it and the characters before it in the rest, and these stand in one line. -/
structure Names (p : Position) (text : List Char) (place : Nat) : Prop where
  line_pos : 1 ≤ p.line
  column_pos : 1 ≤ p.column
  lines : p.line - 1 ≤ (cutLines text).length
  columns : p.column - 1 ≤ ((cutLines text).drop (p.line - 1)).flatten.length
  bytes :
    utf8Length ((cutLines text).take (p.line - 1)).flatten +
      utf8Length (((cutLines text).drop (p.line - 1)).flatten.take (p.column - 1)) = place
  oneLine : '\n' ∉ ((cutLines text).drop (p.line - 1)).flatten.take (p.column - 1)

/-- The position behind a front part of a text names the place behind it. -/
theorem names_of_append (front behind : List Char) :
    (front.foldl next first).Names (front ++ behind) (utf8Length front) := by
  obtain ⟨lines, start, rfl, one, count, last, cut⟩ := exists_cutLines front behind
  have before : (cutLines (lines ++ start ++ behind)).take (cutLines lines).length = cutLines lines := by
    rw [cut, List.take_left]
  have rest : ((cutLines (lines ++ start ++ behind)).drop (cutLines lines).length).flatten =
      start ++ behind := by
    rw [cut, List.drop_left, flatten_cutLines]
  rw [foldl_next, ← count, last]
  constructor
  case line_pos => exact Nat.le_add_right _ _
  case column_pos => exact Nat.le_add_right _ _
  all_goals simp only [Nat.add_sub_cancel_left, before, rest, List.take_left, flatten_cutLines]
  case lines =>
    rw [cut, List.length_append]
    exact Nat.le_add_right _ _
  case columns =>
    rw [List.length_append]
    exact Nat.le_add_right _ _
  case bytes => exact (utf8Length_append ..).symm
  case oneLine => exact one

/-! ## The order of positions -/

/-- Line before column. -/
def coordinates (p : Position) : Nat ×ₗ Nat :=
  toLex (p.line, p.column)

/-- A character leads to a greater position. -/
theorem lt_next (p : Position) (c : Char) : p.coordinates < (p.next c).coordinates := by
  rw [coordinates, coordinates, Prod.Lex.toLex_lt_toLex]
  unfold next
  split
  · exact .inl (Nat.lt_succ_self _)
  · exact .inr ⟨rfl, Nat.lt_succ_self _⟩

/-- Characters lead to a greater position. -/
theorem lt_foldl_next (p : Position) {cs : List Char} (some : cs ≠ []) :
    p.coordinates < (cs.foldl next p).coordinates := by
  obtain ⟨c, cs, rfl⟩ := List.exists_cons_of_ne_nil some
  induction cs generalizing p c with
  | nil => exact p.lt_next c
  | cons d cs ih => exact (p.lt_next c).trans (ih (p.next c) d (List.cons_ne_nil _ _))

end Position

namespace Source

variable (s : Source)

theorem position_eq_foldl (offset : Nat) :
    s.position offset = (takeFitting offset s.content.toList).foldl .next .first :=
  Position.afterBytes_eq_foldl ..

/-- Of two offsets, the greater one has the same floor and position as the other, or greater
ones. -/
theorem position_step {offset offset' : Nat} (le : offset ≤ offset') :
    s.floor offset = s.floor offset' ∧ s.position offset = s.position offset' ∨
      s.floor offset < s.floor offset' ∧
        (s.position offset).coordinates < (s.position offset').coordinates := by
  obtain ⟨more, taken⟩ := prefix_takeFitting (takeFitting_isPrefix offset s.content.toList)
    ((takeFitting_fits ..).trans le)
  rw [floor, floor, position_eq_foldl, position_eq_foldl, ← taken]
  cases more with
  | nil =>
      rw [List.append_nil]
      exact .inl ⟨rfl, rfl⟩
  | cons c more =>
      rw [utf8Length_append, utf8Length_cons, List.foldl_append]
      have := c.utf8Size_pos
      exact .inr ⟨by omega, Position.lt_foldl_next _ (List.cons_ne_nil _ _)⟩

end Source

/-- Positions are faithful coordinates. With every offset, also inside a character or behind the
end, goes its floor, the last place between two characters of the source that is within it; the
position names this place. Positions are ordered by line and then by column as the offsets are,
and two offsets have one position exactly if they have one floor. -/
theorem position_faithful (s : Source) :
    (∀ offset, IsGreatest {place | (⟨place⟩ : String.Pos.Raw).IsValid s.content ∧
      place ≤ min offset s.content.utf8ByteSize} (s.floor offset)) ∧
    (∀ offset, (s.position offset).Names s.content.toList (s.floor offset)) ∧
    Monotone (fun offset => (s.position offset).coordinates) ∧
    ∀ offset offset', s.position offset = s.position offset' ↔ s.floor offset = s.floor offset' := by
  refine ⟨s.isGreatest_floor, fun offset => ?_, fun offset offset' le => ?_, fun offset offset' => ?_⟩
  · obtain ⟨behind, whole⟩ := s.exists_front offset
    have names := Position.names_of_append (takeFitting offset s.content.toList) behind
    rwa [← whole, ← s.position_eq_foldl] at names
  · rcases s.position_step le with ⟨-, same⟩ | ⟨-, less⟩
    · exact (congrArg Position.coordinates same).le
    · exact less.le
  · wlog le : offset ≤ offset' generalizing offset offset'
    · rw [eq_comm, this offset' offset (Nat.le_of_not_le le), eq_comm]
    rcases s.position_step le with ⟨floors, positions⟩ | ⟨floors, positions⟩
    · exact iff_of_true positions floors
    · exact iff_of_false (fun same => positions.ne (congrArg Position.coordinates same)) floors.ne

/-- The two bytes of `é` share a position, and so does all that is behind the end. -/
example :
    let s := Source.unnamed "a\né"
    s.position 2 = ⟨2, 1⟩ ∧ s.position 3 = ⟨2, 1⟩ ∧ s.position 4 = ⟨2, 2⟩ ∧ s.position 100 = ⟨2, 2⟩ := by
  decide

end ProcLang
