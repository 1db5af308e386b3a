import Mathlib.Data.List.DropRight
import ProcLang.Proofs.FrontParts
import ProcLang.Text.Source

/-!
# The line around a place in a text

A text is cut at a place into what stands before it and what stands behind it. The position of
the place counts the line feeds before it and the characters behind the last of them
(`Source.position_of_append`), and the line with this number is the stretch around the place up
to the line feeds on both sides (`Source.line_of_append`). A carriage return is not shown where
a line feed follows it.
-/

set_option autoImplicit false

namespace ProcLang

theorem forall_ne_line {cs : List Char} (one : '\n' ∉ cs) : ∀ c ∈ cs, (c != '\n') = true := by
  intro c mem
  refine bne_iff_ne.2 ?_
  rintro rfl
  exact one mem

/-- What stands in a text behind its last line feed. -/
def lineStart (cs : List Char) : List Char :=
  cs.rtakeWhile (· != '\n')

theorem lineStart_concat (cs : List Char) (c : Char) :
    lineStart (cs ++ [c]) = if c = '\n' then [] else lineStart cs ++ [c] := by
  rw [lineStart, List.rtakeWhile_concat]
  by_cases line : c = '\n'
  · simp [line]
  · simp [line, lineStart]

theorem lineStart_of_not_mem {cs : List Char} (one : '\n' ∉ cs) : lineStart cs = cs :=
  List.rtakeWhile_eq_self_iff.2 (forall_ne_line one)

theorem lineStart_append_line (cs : List Char) {ds : List Char} (one : '\n' ∉ ds) :
    lineStart (cs ++ '\n' :: ds) = ds := by
  induction ds using List.reverseRecOn with
  | nil => rw [lineStart_concat, if_pos rfl]
  | append_singleton ds d ih =>
      obtain ⟨others, last⟩ := not_or.1 (mt List.mem_append.2 one)
      rw [← List.cons_append, ← List.append_assoc, lineStart_concat, ih others, if_neg]
      rintro rfl
      exact last (List.mem_singleton_self _)

/-- A text with a line feed has a last one. -/
theorem exists_last_line {cs : List Char} (line : '\n' ∈ cs) :
    ∃ front ds, cs = front ++ '\n' :: ds ∧ '\n' ∉ ds := by
  obtain ⟨ds, front, whole, one⟩ := List.eq_append_cons_of_mem (List.mem_reverse.2 line)
  refine ⟨front.reverse, ds.reverse, ?_, mt List.mem_reverse.1 one⟩
  rw [← List.reverse_reverse cs, whole]
  simp

/-! ## Positions -/

namespace Position

/-- Passing a whole text is passing its characters one by one. -/
theorem afterBytes_all (p : Position) (cs : List Char) :
    p.afterBytes (utf8Length cs) cs = cs.foldl next p := by
  induction cs generalizing p with
  | nil => rfl
  | cons c cs ih =>
      rw [utf8Length_cons, afterBytes, if_pos (Nat.le_add_right _ _), Nat.add_sub_cancel_left, ih,
        List.foldl_cons]

/-- The characters behind a place do not count. -/
theorem afterBytes_prefix (p : Position) (cs ds : List Char) :
    p.afterBytes (utf8Length cs) (cs ++ ds) = cs.foldl next p := by
  have whole := afterBytes_append p 0 cs ds
  rw [Nat.add_zero, afterBytes_all] at whole
  rw [whole]
  cases ds with
  | nil => rfl
  | cons d ds => rw [afterBytes, if_neg (Nat.not_le.2 d.utf8Size_pos)]

/-- Behind a text the column counts the characters behind its last line feed. -/
theorem foldl_next (cs : List Char) :
    cs.foldl next first = ⟨1 + cs.count '\n', 1 + (lineStart cs).length⟩ := by
  induction cs using List.reverseRecOn with
  | nil => rfl
  | append_singleton cs c ih =>
      rw [List.foldl_append, ih, List.foldl_cons, List.foldl_nil, next, lineStart_concat,
        List.count_append, List.count_singleton]
      by_cases line : c = '\n'
      · simp [line, Nat.add_assoc]
      · simp [line, Nat.add_assoc]

end Position

/-! ## Lines -/

section Lines

variable {α : Type} [DecidableEq α] {lf cr : α}

/-- Behind a line feed the lines go on. -/
theorem splitLines_behind (xs ys : List α) (k : Nat) :
    (splitLines lf cr (xs ++ lf :: ys))[xs.count lf + 1 + k]? = (splitLines lf cr ys)[k]? := by
  induction xs with
  | nil => simp [splitLines, Nat.add_comm]
  | cons x xs ih =>
      rw [List.cons_append, splitLines, List.count_cons]
      by_cases line : x = lf
      · rw [if_pos line, if_pos (beq_iff_eq.2 line), ← ih]
        simp [Nat.add_right_comm]
      · rw [if_neg line, if_neg (mt beq_iff_eq.1 line), Nat.add_zero]
        split
        · exact ih
        · rw [← ih]
          cases splitLines lf cr (xs ++ lf :: ys) with
          | nil => simp [Nat.add_right_comm]
          | cons first others => simp [Nat.add_right_comm]

/-- The last line is all of a text without a line feed. -/
theorem splitLines_last {xs : List α} (one : lf ∉ xs) :
    ((splitLines lf cr xs)[0]?).getD [] = xs := by
  induction xs with
  | nil => rfl
  | cons x xs ih =>
      obtain ⟨other, one⟩ := not_or.1 (mt List.mem_cons.2 one)
      have bare : ¬ (x = cr ∧ xs.head? = some lf) := fun h => one (List.mem_of_head? h.2)
      rw [splitLines, if_neg (Ne.symm other), if_neg bare]
      have ih := ih one
      cases split : splitLines lf cr xs with
      | nil =>
          rw [split] at ih
          exact congrArg (x :: ·) ih
      | cons first others =>
          rw [split] at ih
          exact congrArg (x :: ·) ih

/-- The first line before a line feed, without the carriage return that it may end in. -/
theorem splitLines_first {xs : List α} (one : lf ∉ xs) (ys : List α) :
    (splitLines lf cr (xs ++ lf :: ys))[0]? =
      some (if xs.getLast? = some cr then xs.dropLast else xs) := by
  induction xs with
  | nil => simp [splitLines]
  | cons x xs ih =>
      obtain ⟨other, one⟩ := not_or.1 (mt List.mem_cons.2 one)
      rw [List.cons_append, splitLines, if_neg (Ne.symm other)]
      cases xs with
      | nil =>
          by_cases ret : x = cr
          · simp [splitLines, ret]
          · simp [splitLines, ret]
      | cons x' xs =>
          have bare : ¬ (x = cr ∧ (x' :: xs ++ lf :: ys).head? = some lf) := by
            rintro ⟨-, line⟩
            obtain rfl : x' = lf := Option.some.inj line
            exact one List.mem_cons_self
          rw [if_neg bare]
          have ih := ih one
          cases split : splitLines lf cr (x' :: xs ++ lf :: ys) with
          | nil =>
              rw [split] at ih
              cases ih
          | cons first others =>
              rw [split] at ih
              obtain rfl := Option.some.inj ih
              rw [List.getLast?_cons_cons]
              by_cases ret : (x' :: xs).getLast? = some cr
              · simp [ret]
              · simp [ret]

end Lines

/-- The line around a place, as it is shown: up to the line feeds on both sides, without a
carriage return before the one behind. -/
def shownLine (before behind : List Char) : List Char :=
  let line := lineStart before ++ behind.takeWhile (· != '\n')
  if '\n' ∈ behind ∧ line.getLast? = some '\r' then line.dropLast else line

namespace Source

variable {s : Source} {before behind : List Char}

/-- The position of a place in a text. -/
theorem position_of_append (split : s.content.toList = before ++ behind) :
    s.position (utf8Length before) = ⟨1 + before.count '\n', 1 + (lineStart before).length⟩ := by
  rw [position, split, Position.afterBytes_prefix, Position.foldl_next]

/-- The first line of a text that begins in a line. -/
theorem splitLines_shown {start : List Char} (one : '\n' ∉ start) (behind : List Char) :
    ((splitLines '\n' '\r' (start ++ behind))[0]?).getD [] = shownLine start behind := by
  rw [shownLine, lineStart_of_not_mem one]
  by_cases line : '\n' ∈ behind
  · obtain ⟨rest, tail, rfl, one'⟩ := List.eq_append_cons_of_mem line
    have stretch : (rest ++ '\n' :: tail).takeWhile (· != '\n') = rest :=
      (takeWhile_run (forall_ne_line one') (by simp)).1
    have whole : '\n' ∉ start ++ rest := by
      rw [List.mem_append]
      exact not_or.2 ⟨one, one'⟩
    rw [← List.append_assoc, splitLines_first whole, stretch]
    simp [line]
  · have stretch : behind.takeWhile (· != '\n') = behind :=
      List.takeWhile_eq_self_iff.2 (forall_ne_line line)
    have whole : '\n' ∉ start ++ behind := by
      rw [List.mem_append]
      exact not_or.2 ⟨one, line⟩
    rw [splitLines_last whole, stretch, if_neg (fun h => line h.1)]

/-- The line with the number of a place is the one around it. -/
theorem line_of_append (split : s.content.toList = before ++ behind) :
    s.line (1 + before.count '\n') = shownLine before behind := by
  rw [line, split, Nat.add_sub_cancel_left]
  by_cases feed : '\n' ∈ before
  · obtain ⟨front, start, rfl, one⟩ := exists_last_line feed
    have number : (front ++ '\n' :: start).count '\n' = front.count '\n' + 1 + 0 := by
      rw [List.count_append, List.count_cons_self, List.count_eq_zero.2 one]
    rw [number, List.append_assoc, List.cons_append, splitLines_behind, splitLines_shown one,
      shownLine, shownLine, lineStart_append_line front one, lineStart_of_not_mem one]
  · rw [List.count_eq_zero.2 feed, splitLines_shown feed]

end Source

end ProcLang
