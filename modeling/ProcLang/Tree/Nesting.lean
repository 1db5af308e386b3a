import ProcLang.Tree.Basic

/-!
# Nesting levels of a tree

How many levels are open at once, at most, while a tree is read: statements,
expressions, operands of prefix operators and right operands of binary operators open
one each; left operands and the bases of postfix chains open none.
-/

set_option autoImplicit false

namespace ProcLang

/-- The largest of a list of numbers, zero if there is none. -/
def largest (ns : List Nat) : Nat :=
  ns.foldr max 0

theorem largest_le_iff {ns : List Nat} {n : Nat} : largest ns ≤ n ↔ ∀ m ∈ ns, m ≤ n := by
  induction ns with
  | nil => simp [largest]
  | cons m ns ih =>
      show max m (largest ns) ≤ n ↔ _
      rw [Nat.max_le, ih, List.forall_mem_cons]

theorem le_largest {ns : List Nat} {n : Nat} (mem : n ∈ ns) : n ≤ largest ns :=
  largest_le_iff.1 (Nat.le_refl _) n mem

namespace Expr

mutual

/-- The levels opened inside an expression, apart from the one it stands in. -/
def innerLevels : Expr → Nat
  | literal _ _ | ident _ => 0
  | paren inner => 1 + innerLevels inner
  | binary _ lhs rhs => max (innerLevels lhs) (1 + innerLevels rhs)
  | prefixOp _ arg => 1 + innerLevels arg
  | postIncrement base => innerLevels base
  | postDecrement base => innerLevels base
  | call callee args => max (innerLevels callee) (levelsOfAll args)
  | subscript base index => max (innerLevels base) (1 + innerLevels index)

/-- The levels opened by a list of expressions, each with a level of its own. -/
def levelsOfAll : List Expr → Nat
  | [] => 0
  | e :: es => max (1 + innerLevels e) (levelsOfAll es)

end

/-- The levels opened by an expression. -/
def levels (e : Expr) : Nat :=
  1 + e.innerLevels

theorem levelsOfAll_eq_largest (es : List Expr) : levelsOfAll es = largest (es.map levels) := by
  induction es with
  | nil => rfl
  | cons e es ih =>
      rw [levelsOfAll, ih]
      rfl

end Expr

/-- The levels opened by the initial value of a declared name. -/
def Binding.levels (b : Binding) : Nat :=
  match b.initial with
  | none => 0
  | some e => e.levels

/-- The levels opened by a list of variables. -/
def VarDecl.levels (d : VarDecl) : Nat :=
  largest (d.bindings.map Binding.levels)

mutual

/-- The levels opened by a statement. -/
def Stmt.levels : Stmt → Nat
  | .block body => 1 + Stmt.levelsOfAll body
  | .conditional test body rest =>
      1 + max test.levels (max (Stmt.levels body) (Alternatives.levels rest))
  | .whileLoop test body => 1 + max test.levels (Stmt.levels body)
  | .repeatLoop body => 1 + Stmt.levels body
  | .forLoop => 1
  | .breakOut => 1
  | .continueOn => 1
  | .returnValue value => 1 + value.levels
  | .declare decl => 1 + decl.levels
  | .evaluate value => 1 + value.levels

/-- The levels opened by what follows the first branch of a conditional. -/
def Alternatives.levels : Alternatives → Nat
  | .nothing => 0
  | .otherwise body => Stmt.levels body
  | .elseIf test body rest =>
      max test.levels (max (Stmt.levels body) (Alternatives.levels rest))

/-- The levels opened by a list of statements. -/
def Stmt.levelsOfAll : List Stmt → Nat
  | [] => 0
  | s :: ss => max (Stmt.levels s) (Stmt.levelsOfAll ss)

end

theorem Stmt.levelsOfAll_eq_largest (ss : List Stmt) :
    Stmt.levelsOfAll ss = largest (ss.map Stmt.levels) := by
  induction ss with
  | nil => rfl
  | cons s ss ih =>
      rw [Stmt.levelsOfAll, ih]
      rfl

theorem Stmt.levels_braces (body : List Stmt) :
    (Stmt.block body).levels = 1 + largest (body.map Stmt.levels) := by
  rw [Stmt.levels, Stmt.levelsOfAll_eq_largest]

/-- A statement opens a level. -/
theorem Stmt.levels_pos (s : Stmt) : 0 < s.levels := by
  cases s <;> simp only [Stmt.levels] <;> omega

/-- The levels opened by a declaration. The head and the braces of a function open
none. -/
def Decl.levels : Decl → Nat
  | .func d =>
      match d.body with
      | none => 0
      | some body => Stmt.levelsOfAll body
  | .var d => d.levels
  | .param p => p.binding.levels

/-- The levels opened by a program. -/
def Program.levels (p : Program) : Nat :=
  largest (p.decls.map Decl.levels)

end ProcLang
