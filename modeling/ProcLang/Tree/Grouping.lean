import ProcLang.Tree.Basic

/-!
# Grouping by strength

The reference grouping of a sequence of operands and binary operators: the root is the
leftmost of the loosest operators, and both sides are grouped in the same way. What is
grouped are unary operands, in which binary operators stand in brackets only.
-/

set_option autoImplicit false

namespace ProcLang

namespace Expr

/-- A literal, a name or an expression in parentheses, with a chain of postfix operators, calls and
subscripts behind it. -/
def isChain : Expr → Bool
  | literal _ _ | ident _ | paren _ => true
  | postIncrement base | postDecrement base | call base _ | subscript base _ => base.isChain
  | binary _ _ _ | prefixOp _ _ => false

/-- A chain with prefix operators before it. -/
def isUnary : Expr → Bool
  | prefixOp _ arg => arg.isUnary
  | e => e.isChain

theorem isUnary_of_isChain {e : Expr} (h : e.isChain = true) : e.isUnary = true := by
  cases e with
  | prefixOp op arg => cases h
  | _ => exact h

end Expr

/-- An operator with its strength and the operand on its right. -/
structure OperatorStep where
  op : String
  strength : Nat
  operand : Expr

/-- Whether `t` binds more tightly than some operator among `steps`. -/
def isTighter (steps : List OperatorStep) (t : OperatorStep) : Bool :=
  steps.any fun s => s.strength < t.strength

/-- Groups the operand `first` and the operators behind it. -/
def group (first : Expr) (steps : List OperatorStep) : Expr :=
  match _found : steps.dropWhile (isTighter steps) with
  | [] => first
  | root :: right =>
      .binary root.op (group first (steps.takeWhile (isTighter steps)))
        (group root.operand right)
termination_by steps.length
decreasing_by
  all_goals
    have split := congrArg List.length
      (List.takeWhile_append_dropWhile (p := isTighter steps) (l := steps))
    rw [_found] at split
    simp only [List.length_append, List.length_cons] at split
    omega

/-- An operand with no operator behind it is the whole. -/
theorem group_nil (first : Expr) : group first [] = first := by
  rw [group]
  rfl

/-- The root of a sequence is the operator that is looser than all before it and at least as
loose as all behind it, and both sides are grouped by themselves. -/
theorem group_append {before behind : List OperatorStep} {root : OperatorStep}
    (tighter : ∀ s ∈ before, root.strength < s.strength)
    (noLooser : ∀ s ∈ behind, root.strength ≤ s.strength) (first : Expr) :
    group first (before ++ root :: behind) =
      .binary root.op (group first before) (group root.operand behind) := by
  have passed : ∀ t ∈ before, isTighter (before ++ root :: behind) t = true := by
    intro t mem
    exact List.any_eq_true.2 ⟨root, List.mem_append_right _ List.mem_cons_self,
      decide_eq_true (tighter t mem)⟩
  have stopped : isTighter (before ++ root :: behind) root = false := by
    apply List.any_eq_false.2
    intro s mem
    rw [decide_eq_true_eq, Nat.not_lt]
    rcases List.mem_append.1 mem with mem | mem
    · exact Nat.le_of_lt (tighter s mem)
    · rcases List.mem_cons.1 mem with rfl | mem
      · exact Nat.le_refl _
      · exact noLooser s mem
  have found : (before ++ root :: behind).dropWhile (isTighter (before ++ root :: behind)) =
      root :: behind := by
    rw [List.dropWhile_append_of_pos passed,
      List.dropWhile_cons_of_neg (stopped ▸ Bool.false_ne_true)]
  have front : (before ++ root :: behind).takeWhile (isTighter (before ++ root :: behind)) =
      before := by
    rw [List.takeWhile_append_of_pos passed,
      List.takeWhile_cons_of_neg (stopped ▸ Bool.false_ne_true), List.append_nil]
  rw [group]
  split
  next none => exact absurd (found.symm.trans none) (List.cons_ne_nil _ _)
  next root' right some =>
    obtain ⟨rfl, rfl⟩ := List.cons.inj (found.symm.trans some)
    rw [front]

end ProcLang
