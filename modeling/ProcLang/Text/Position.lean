import ProcLang.Text.Utf8

/-!
# Lines and positions in a text

A position is a line and a column, both counted from one, the column in characters.
Only a line feed ends a line. A text is also split into its lines, without the line
feed and without a carriage return just before it; the split works on characters and
on bytes alike.
-/

set_option autoImplicit false

namespace ProcLang

/-- A place between two characters of a text. -/
structure Position where
  line : Nat
  column : Nat
deriving DecidableEq, Repr

namespace Position

/-- The position before the first character. -/
def first : Position :=
  ⟨1, 1⟩

/-- The position behind a character that stands at `p`. -/
def next (p : Position) (c : Char) : Position :=
  if c = '\n' then ⟨p.line + 1, 1⟩ else ⟨p.line, p.column + 1⟩

/-- The position reached from `p` by passing whole characters of `cs` within `offset`
bytes. An offset inside a character is taken down to its start, and one past the end to
the end. -/
def afterBytes (p : Position) (offset : Nat) : List Char → Position
  | [] => p
  | c :: cs =>
      if c.utf8Size ≤ offset then (p.next c).afterBytes (offset - c.utf8Size) cs else p

/-- A position that is `n` lines further down, in the same column. -/
def down (n : Nat) (p : Position) : Position :=
  ⟨p.line + n, p.column⟩

theorem next_down (n : Nat) (p : Position) (c : Char) : (p.down n).next c = (p.next c).down n := by
  unfold next
  by_cases h : c = '\n'
  · rw [if_pos h, if_pos h, down, down, Nat.add_right_comm]
  · rw [if_neg h, if_neg h, down, down]

/-- Beginning further down, one ends as much further down. -/
theorem afterBytes_down (n offset : Nat) (p : Position) (cs : List Char) :
    (p.down n).afterBytes offset cs = (p.afterBytes offset cs).down n := by
  induction cs generalizing p offset with
  | nil => rfl
  | cons c cs ih =>
      rw [afterBytes, afterBytes]
      by_cases h : c.utf8Size ≤ offset
      · rw [if_pos h, if_pos h, next_down, ih]
      · rw [if_neg h, if_neg h]

/-- A text is passed as a whole, and what follows it from there. -/
theorem afterBytes_append (p : Position) (offset : Nat) (cs ds : List Char) :
    p.afterBytes (utf8Length cs + offset) (cs ++ ds) =
      (p.afterBytes (utf8Length cs) cs).afterBytes offset ds := by
  induction cs generalizing p with
  | nil => rw [utf8Length_nil, Nat.zero_add, List.nil_append, afterBytes]
  | cons c cs ih =>
      have inside (n : Nat) : c.utf8Size ≤ c.utf8Size + n := Nat.le_add_right _ _
      rw [utf8Length_cons, Nat.add_assoc, List.cons_append, afterBytes, afterBytes, if_pos (inside _),
        if_pos (inside _), Nat.add_sub_cancel_left, Nat.add_sub_cancel_left, ih]

/-- Every line feed that is passed adds a line. -/
theorem afterBytes_line (p : Position) (cs : List Char) :
    (p.afterBytes (utf8Length cs) cs).line = p.line + cs.count '\n' := by
  induction cs generalizing p with
  | nil => rfl
  | cons c cs ih =>
      rw [utf8Length_cons, afterBytes, if_pos (Nat.le_add_right _ _), Nat.add_sub_cancel_left, ih,
        List.count_cons]
      by_cases h : c = '\n'
      · simp only [next, h, if_true, beq_self_eq_true]
        omega
      · simp [next, h]

/-- Behind a text and a line feed the first column is reached, and the lines go on. -/
theorem afterBytes_append_line (p : Position) (offset : Nat) (cs ds : List Char) :
    p.afterBytes (utf8Length cs + 1 + offset) (cs ++ '\n' :: ds) =
      ((⟨p.line, 1⟩ : Position).afterBytes offset ds).down (cs.count '\n' + 1) := by
  have fits : '\n'.utf8Size ≤ 1 + offset := Nat.le_add_right _ _
  rw [Nat.add_assoc, afterBytes_append, afterBytes, if_pos fits, ← afterBytes_down, next, if_pos rfl,
    afterBytes_line, Nat.add_assoc]
  congr 1
  exact Nat.add_sub_cancel_left ..

end Position

/-- The lines of a text over any alphabet with a line feed `lf` and a carriage return
`cr`. A carriage return is dropped only just before a line feed, and a text that ends
in a line feed has no further line. -/
def splitLines {α : Type} [DecidableEq α] (lf cr : α) : List α → List (List α)
  | [] => []
  | x :: xs =>
      if x = lf then [] :: splitLines lf cr xs
      else if x = cr ∧ xs.head? = some lf then splitLines lf cr xs
      else
        match splitLines lf cr xs with
        | [] => [[x]]
        | line :: lines => (x :: line) :: lines

end ProcLang
