/-!
# Front parts of lists

What is taken from the front of a list, what is found first in it, and what holds of a list
that was collected from its front.
-/

set_option autoImplicit false

namespace ProcLang

variable {α : Type}

/-- A run that is not continued is taken as a whole. -/
theorem takeWhile_run {p : α → Bool} {run rest : List α} (hrun : ∀ d ∈ run, p d = true)
    (hrest : ∀ d ∈ rest.head?, p d = false) :
    (run ++ rest).takeWhile p = run ∧ (run ++ rest).dropWhile p = rest := by
  rw [List.takeWhile_append_of_pos hrun, List.dropWhile_append_of_pos hrun]
  cases rest with
  | nil => simp
  | cons d rest => simp [hrest d rfl]

/-- A run at the front of a list is a part of the longest one there. -/
theorem length_le_takeWhile {p : α → Bool} {run l : List α} (hrun : ∀ d ∈ run, p d = true)
    (front : run <+: l) : run.length ≤ (l.takeWhile p).length := by
  obtain ⟨rest, rfl⟩ := front
  rw [List.takeWhile_append_of_pos hrun, List.length_append]
  exact Nat.le_add_right _ _

/-- A front part of two lists, one behind the other, is a front part of the first, or goes on
into the second. -/
theorem isPrefix_append {longer cs rest : List α} (h : longer <+: cs ++ rest) :
    longer <+: cs ∨ ∃ d ∈ rest.head?, cs ++ [d] <+: longer := by
  rcases Nat.lt_or_ge cs.length longer.length with long | short
  · cases rest with
    | nil =>
        have := h.length_le
        rw [List.append_nil] at this
        omega
    | cons d rest =>
        refine .inr ⟨d, rfl, List.prefix_of_prefix_length_le ?_ h ?_⟩
        · exact ⟨rest, by simp⟩
        · rw [List.length_append, List.length_singleton]
          exact long
  · exact .inl (List.prefix_of_prefix_length_le h (List.prefix_append cs rest) short)

/-- A search depends on nothing but the answers for the members. -/
theorem find?_congr {p q : α → Bool} {l : List α} (h : ∀ a ∈ l, p a = q a) :
    l.find? p = l.find? q := by
  induction l with
  | nil => rfl
  | cons a l ih =>
      rw [List.forall_mem_cons] at h
      rw [List.find?_cons, List.find?_cons, h.1, ih h.2]

/-- What is found first in an ordered list comes before all else that could be found. -/
theorem le_of_find?_eq_some {r : α → α → Prop} (refl : ∀ a, r a a) {l : List α}
    (ordered : l.Pairwise r) {p : α → Bool} {a : α} (first : l.find? p = some a) :
    ∀ b ∈ l, p b = true → r a b := by
  obtain ⟨-, front, back, rfl, notBefore⟩ := List.find?_eq_some_iff_append.1 first
  obtain ⟨-, behind, -⟩ := List.pairwise_append.1 ordered
  intro b mem found
  rcases List.mem_append.1 mem with mem | mem
  · have := notBefore b mem
    rw [found] at this
    exact absurd this Bool.false_ne_true
  · rcases List.mem_cons.1 mem with rfl | mem
    · exact refl b
    · exact (List.pairwise_cons.1 behind).1 b mem

/-- What holds of one more item and of those before holds of the whole list. -/
theorem forall_mem_reverse_cons {P : α → Prop} {a : α} {items : List α} (ha : P a)
    (hitems : ∀ b ∈ items, P b) : ∀ b ∈ (a :: items).reverse, P b := by
  intro b hb
  exact List.forall_mem_cons.2 ⟨ha, hitems⟩ b (List.mem_reverse.1 hb)

end ProcLang
