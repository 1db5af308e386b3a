import Mathlib
import ProcLang.Proofs.Parse.Acceptance
import ProcLang.Tree.Height

/-!
# Only postfix chains are unlimited

The height of an accepted tree is limited by the nesting limit, but for the links of its
postfix chains (`height_bounded`). A node below another opens a level, stands to the left of an
operator that binds less tightly, or is the base of a link. There are eight strengths of
operators, so nine nodes at most stand in one level beside the links.

The links of a chain open no level, so there are accepted programs of every height
(`height_unbounded`).
-/

set_option autoImplicit false

namespace ProcLang

/-! ## Levels of nodes -/

/-- The levels opened by a node. -/
def Node.levels : Node → Nat
  | decl d => d.levels
  | stmt s => s.levels
  | expr e => e.levels

theorem VarDecl.child_levels {d : VarDecl} {c : Node}
    (mem : c ∈ (initialValues d.bindings).map Node.expr) : c.levels ≤ d.levels := by
  obtain ⟨e, inside, rfl⟩ := List.mem_map.1 mem
  obtain ⟨b, binding, initial⟩ := List.mem_filterMap.1 inside
  have levels : b.levels = e.levels := by rw [Binding.levels, initial]
  rw [Node.levels, ← levels]
  exact le_largest (List.mem_map_of_mem binding)

theorem Alternatives.child_levels {a : Alternatives} {c : Node} (mem : c ∈ a.children) :
    c.levels ≤ a.levels := by
  induction a using Alternatives.children.induct with
  | case1 => exact absurd mem List.not_mem_nil
  | case2 body =>
      obtain rfl := List.mem_singleton.1 mem
      exact Nat.le_refl _
  | case3 test body rest ih =>
      rw [levels]
      rcases List.mem_cons.1 mem with rfl | mem
      · exact Nat.le_max_left ..
      · rcases List.mem_cons.1 mem with rfl | mem
        · exact Nat.le_trans (Nat.le_max_left ..) (Nat.le_max_right ..)
        · have := ih mem
          omega

theorem Stmt.mem_levelsOfAll {s : Stmt} {ss : List Stmt} (mem : s ∈ ss) :
    s.levels ≤ Stmt.levelsOfAll ss := by
  rw [Stmt.levelsOfAll_eq_largest]
  exact le_largest (List.mem_map_of_mem mem)

/-- Below a statement at least one level less is opened. -/
theorem Stmt.child_levels {s : Stmt} {c : Node} (mem : c ∈ s.children) :
    c.levels < s.levels := by
  cases s with
  | block body =>
      obtain ⟨s, inside, rfl⟩ := List.mem_map.1 mem
      have := Stmt.mem_levelsOfAll inside
      rw [levels, Node.levels]
      omega
  | conditional test body rest =>
      rw [levels]
      rcases List.mem_cons.1 mem with rfl | mem
      · rw [Node.levels]; omega
      · rcases List.mem_cons.1 mem with rfl | mem
        · rw [Node.levels]; omega
        · have := Alternatives.child_levels mem
          omega
  | whileLoop test body =>
      rw [levels]
      rcases List.mem_cons.1 mem with rfl | mem
      · rw [Node.levels]; omega
      · obtain rfl := List.mem_singleton.1 mem
        rw [Node.levels]; omega
  | declare decl =>
      have : c.levels ≤ decl.levels := VarDecl.child_levels mem
      rw [levels]
      omega
  | repeatLoop body | returnValue value | evaluate value =>
      obtain rfl := List.mem_singleton.1 mem
      rw [levels, Node.levels]; omega
  | forLoop | breakOut | continueOn => exact absurd mem List.not_mem_nil

theorem Decl.child_levels {d : Decl} (wf : d.WellFormed) {c : Node} (mem : c ∈ d.children) :
    c.levels ≤ d.levels := by
  cases d with
  | func d =>
      rw [FuncDecl.WellFormed.children_eq wf] at mem
      obtain ⟨s, inside, rfl⟩ := List.mem_map.1 mem
      obtain ⟨typeName, declarator, params, body⟩ := d
      cases body with
      | none => exact absurd inside List.not_mem_nil
      | some body => exact Stmt.mem_levelsOfAll inside
  | var d => exact VarDecl.child_levels mem
  | param d => exact wf.elim

/-! ## Nodes in one level -/

/-- How many nodes can stand below one another from an operator downwards to the left, as
every operator there binds more tightly than the one above it. -/
def Expr.spine : Expr → Nat
  | binary op _ _ => 8 - (binaryStrength? op).getD 0
  | _ => 0

theorem Expr.spine_le (e : Expr) : e.spine ≤ 8 := by
  cases e with
  | binary op lhs rhs => exact Nat.sub_le ..
  | _ => exact Nat.zero_le _

theorem TokenKind.precedence_le {kind : TokenKind} {strength : Nat}
    (binary : kind.precedence? = some strength) : strength ≤ 7 := by
  cases kind <;> cases binary <;> decide

namespace Expr

theorem WellFormed.spine_lhs {op : String} {lhs rhs : Expr}
    (wf : (binary op lhs rhs).WellFormed) : lhs.spine < (binary op lhs rhs).spine := by
  obtain ⟨⟨strength, spelled, left, -⟩, -, -⟩ := wf
  have := TokenKind.precedence_le spelled
  rw [spine, spelled, Option.getD_some]
  -- a left operand that is an operator binds more tightly; any other ends the row
  cases lhs with
  | binary op' lhs' rhs' =>
      obtain ⟨tighter, spelled', less⟩ := left rfl
      have := TokenKind.precedence_le spelled'
      rw [outerStrength?] at spelled'
      rw [spine, spelled', Option.getD_some]
      omega
  | _ =>
      show 0 < 8 - strength
      omega

theorem spine_of_isPostfixBase {e : Expr} (base : e.isPostfixBase = true) : e.spine = 0 := by
  cases e with
  | binary op lhs rhs => cases base
  | _ => rfl

end Expr

section Bound

variable {link c : Nat}

theorem Node.height_le_of_children {n : Node} {b : Nat}
    (below : ∀ m ∈ n.children, m.height link ≤ b) : n.height link ≤ n.weight link + b := by
  rw [height_eq]
  exact Nat.add_le_add_left (largest_le_iff.2 (List.forall_mem_map.2 below)) _

/-- The bound on the height of a node where no postfix chain has more than `c` links: nine
nodes for every level, each with a chain. Of the level in which an expression stands, it has
only the operators from itself downwards, and its own chain. -/
def Node.Low (link c : Nat) : Node → Prop
  | expr e =>
      (expr e).height link ≤
        (9 * e.innerLevels + e.spine) * (1 + link * c) + (1 + link * e.chainLength)
  | stmt s => (stmt s).height link ≤ 9 * s.levels * (1 + link * c)
  | decl _ => True

/-- What an expression comes to with a whole chain behind it. -/
theorem Expr.height_le_of_low {e : Expr} (low : (Node.expr e).Low link c)
    (chain : e.chainLength ≤ c) :
    (Node.expr e).height link ≤ (9 * e.innerLevels + e.spine + 1) * (1 + link * c) := by
  have chain' : 1 + link * e.chainLength ≤ 1 + link * c :=
    Nat.add_le_add_left (Nat.mul_le_mul_left link chain) 1
  calc (Node.expr e).height link
      ≤ (9 * e.innerLevels + e.spine) * (1 + link * c) + (1 + link * e.chainLength) := low
    _ ≤ (9 * e.innerLevels + e.spine) * (1 + link * c) + (1 + link * c) :=
        Nat.add_le_add_left chain' _
    _ = (9 * e.innerLevels + e.spine + 1) * (1 + link * c) := (Nat.succ_mul ..).symm

/-- What a node comes to with the whole level in which it stands. -/
theorem Node.Low.height_le {n : Node} (low : n.Low link c) (chain : n.chainLength ≤ c)
    (nested : n.isDecl = false) : n.height link ≤ 9 * n.levels * (1 + link * c) := by
  cases n with
  | decl d => cases nested
  | stmt s => exact low
  | expr e =>
      have spine := e.spine_le
      refine Nat.le_trans (Expr.height_le_of_low low chain) (Nat.mul_le_mul_right _ ?_)
      rw [levels, Expr.levels]
      omega

/-- A node that is no link, with all its children within its own bound. -/
theorem Expr.low_of_plain {e : Expr} (weight : (Node.expr e).weight link = 1)
    (below : ∀ m ∈ (Node.expr e).children,
      m.height link ≤ (9 * e.innerLevels + e.spine) * (1 + link * c)) :
    (Node.expr e).Low link c := by
  have := Node.height_le_of_children below
  rw [Node.Low]
  omega

/-- A link: the base may have the chain behind it, the other children may not. -/
theorem Expr.low_of_link {e base : Expr} (weight : (Node.expr e).weight link = link)
    (chain : e.chainLength = 1 + base.chainLength)
    (below : ∀ m ∈ (Node.expr e).children, m.height link ≤
      (9 * e.innerLevels + e.spine) * (1 + link * c) + (1 + link * base.chainLength)) :
    (Node.expr e).Low link c := by
  have own := Node.height_le_of_children below
  have more : link * (1 + base.chainLength) = link + link * base.chainLength := by
    rw [Nat.mul_add, Nat.mul_one]
  rw [Node.Low, chain, more]
  omega

/-- The base of a chain stands in the level of the chain. -/
theorem Expr.base_height_le {base : Expr} {levels spine : Nat}
    (low : (Node.expr base).Low link c) (isBase : base.isPostfixBase = true)
    (inner : base.innerLevels ≤ levels) :
    (Node.expr base).height link ≤
      (9 * levels + spine) * (1 + link * c) + (1 + link * base.chainLength) := by
  refine Nat.le_trans low (Nat.add_le_add_right (Nat.mul_le_mul_right _ ?_) _)
  rw [spine_of_isPostfixBase isBase]
  omega

/-- What stands in a level of its own inside an expression. -/
theorem Node.Low.height_le_inner {n : Node} (low : n.Low link c) (chain : n.chainLength ≤ c)
    (nested : n.isDecl = false) {levels spine : Nat} (inner : n.levels ≤ levels) :
    n.height link ≤ (9 * levels + spine) * (1 + link * c) := by
  refine Nat.le_trans (low.height_le chain nested) (Nat.mul_le_mul_right _ ?_)
  omega

theorem Expr.low {e : Expr} (wf : e.WellFormed)
    (below : ∀ m ∈ (Node.expr e).children, m.Low link c ∧ m.chainLength ≤ c) :
    (Node.expr e).Low link c := by
  cases e with
  | literal kind text =>
      exact low_of_plain rfl fun m mem => absurd mem List.not_mem_nil
  | ident name =>
      exact low_of_plain rfl fun m mem => absurd mem List.not_mem_nil
  | paren inner =>
      obtain ⟨low, chain⟩ := List.forall_mem_singleton.1 below
      exact low_of_plain rfl
        (List.forall_mem_singleton.2 (low.height_le_inner chain rfl (Nat.le_refl _)))
  | prefixOp op arg =>
      obtain ⟨low, chain⟩ := List.forall_mem_singleton.1 below
      exact low_of_plain rfl
        (List.forall_mem_singleton.2 (low.height_le_inner chain rfl (Nat.le_refl _)))
  | binary op lhs rhs =>
      obtain ⟨left, right⟩ := List.forall_mem_cons.1 below
      obtain ⟨low, chain⟩ := List.forall_mem_singleton.1 right
      refine low_of_plain rfl (List.forall_mem_cons.2 ⟨?_, List.forall_mem_singleton.2
        (low.height_le_inner chain rfl (Nat.le_max_right ..))⟩)
      -- the left operand is in the same level, further down the operators
      have spine := wf.spine_lhs
      have inner : lhs.innerLevels ≤ (binary op lhs rhs).innerLevels := Nat.le_max_left ..
      refine Nat.le_trans (height_le_of_low left.1 left.2) (Nat.mul_le_mul_right _ ?_)
      omega
  | postIncrement base =>
      obtain ⟨low, -⟩ := List.forall_mem_singleton.1 below
      exact low_of_link rfl rfl
        (List.forall_mem_singleton.2 (base_height_le low wf.1 (Nat.le_refl _)))
  | postDecrement base =>
      obtain ⟨low, -⟩ := List.forall_mem_singleton.1 below
      exact low_of_link rfl rfl
        (List.forall_mem_singleton.2 (base_height_le low wf.1 (Nat.le_refl _)))
  | call callee args =>
      obtain ⟨⟨low, -⟩, others⟩ := List.forall_mem_cons.1 below
      refine low_of_link rfl rfl (List.forall_mem_cons.2
        ⟨base_height_le low wf.1 (Nat.le_max_left ..), fun m mem => ?_⟩)
      obtain ⟨low, chain⟩ := others m mem
      obtain ⟨arg, inside, rfl⟩ := List.mem_map.1 mem
      have inner : arg.levels ≤ (call callee args).innerLevels := by
        rw [innerLevels, levelsOfAll_eq_largest]
        exact Nat.le_trans (le_largest (List.mem_map_of_mem inside)) (Nat.le_max_right ..)
      exact Nat.le_add_right_of_le (low.height_le_inner chain rfl inner)
  | subscript base index =>
      obtain ⟨⟨low, -⟩, right⟩ := List.forall_mem_cons.1 below
      obtain ⟨low', chain⟩ := List.forall_mem_singleton.1 right
      refine low_of_link rfl rfl (List.forall_mem_cons.2
        ⟨base_height_le low wf.1 (Nat.le_max_left ..), List.forall_mem_singleton.2 ?_⟩)
      exact Nat.le_add_right_of_le (low'.height_le_inner chain rfl (Nat.le_max_right ..))

theorem Stmt.low {s : Stmt}
    (below : ∀ m ∈ (Node.stmt s).children, m.Low link c ∧ m.chainLength ≤ c) :
    (Node.stmt s).Low link c := by
  obtain ⟨levels, hlevels⟩ : ∃ levels, s.levels = levels + 1 :=
    Nat.exists_eq_add_one.2 s.levels_pos
  have own : (Node.stmt s).height link ≤ 1 + (9 * levels + 0) * (1 + link * c) := by
    refine Node.height_le_of_children fun m mem => ?_
    obtain ⟨low, chain⟩ := below m mem
    have less : m.levels < s.levels := Stmt.child_levels mem
    exact low.height_le_inner chain (Node.isDecl_child _ m mem) (by omega)
  -- the statement itself is one of the nine nodes of its level
  have more : 9 * (levels + 1) * (1 + link * c) =
      (9 * levels + 0) * (1 + link * c) + 9 * (1 + link * c) := by
    rw [← Nat.add_mul, Nat.mul_succ, Nat.add_zero]
  rw [Node.Low, hlevels, more]
  omega

/-- The bound passes from the children of a node to the node. -/
theorem Node.low_of_children {n : Node} (wf : n.WellFormed)
    (below : ∀ m ∈ n.children, m.Low link c ∧ m.chainLength ≤ c) : n.Low link c := by
  cases n with
  | decl d => trivial
  | stmt s => exact Stmt.low below
  | expr e => exact Expr.low wf below

theorem Node.low {n : Node} (wf : n.WellFormed) (chains : ∀ m ∈ n.nodes, m.chainLength ≤ c) :
    n.Low link c := by
  induction n using Node.induction with
  | step n ih =>
      refine low_of_children wf fun m child => ?_
      have below : ∀ m' ∈ m.nodes, m'.chainLength ≤ c := fun m' inside =>
        chains m' (mem_nodes_of_child child inside)
      exact ⟨ih m child (wf.child m child) below, below m m.mem_nodes_self⟩

theorem Program.chainLength_le {p : Program} {n : Node} (mem : n ∈ p.nodes) :
    n.chainLength ≤ p.longestChain :=
  le_largest (List.mem_map_of_mem mem)

/-- The height of a well-formed program, by its levels and its longest postfix chain. -/
theorem Program.height_le {p : Program} (wf : p.WellFormed) :
    p.height link ≤ 9 * p.levels * (1 + link * p.longestChain) := by
  rw [height, largest_le_iff, List.forall_mem_map]
  intro d mem
  rw [largest_le_iff, List.forall_mem_map]
  intro n child
  have below : ∀ m ∈ n.nodes, m ∈ p.nodes := fun m inside =>
    List.mem_flatMap.2 ⟨d, mem, Node.mem_nodes_of_child child inside⟩
  have chains := fun m inside => chainLength_le (below m inside)
  have self := below n n.mem_nodes_self
  have low : n.Low link p.longestChain := Node.low (wf.nodes n self) chains
  have levels : n.levels ≤ p.levels :=
    Nat.le_trans (Decl.child_levels (wf d mem) child) (le_largest (List.mem_map_of_mem mem))
  have nested : n.isDecl = false := Node.isDecl_child (.decl d) n child
  refine Nat.le_trans (low.height_le (chainLength_le self) nested) ?_
  exact Nat.mul_le_mul_right _ (Nat.mul_le_mul_left 9 levels)

end Bound

/-- The height of an accepted tree. A chain of nested statements and expressions has at most
sixteen nodes that are no links of postfix chains for each level of the nesting limit, and so,
with the links, at most as many times the length of the longest postfix chain and one. -/
theorem height_bounded (source : String) (u : Program) (accepted : parseSource source = .ok u) :
    u.height 0 ≤ 16 * nestingLimit ∧
      u.height 1 ≤ 16 * nestingLimit * (1 + u.longestChain) := by
  obtain ⟨wf, levels, -⟩ := (parseSource_eq_ok source u).1 accepted
  have bound : 9 * u.levels ≤ 16 * nestingLimit := by
    rw [nestingLimit] at levels ⊢
    omega
  constructor
  · have := @Program.height_le 0 u wf
    rw [Nat.zero_mul, Nat.add_zero, Nat.mul_one] at this
    exact Nat.le_trans this bound
  · have := @Program.height_le 1 u wf
    rw [Nat.one_mul] at this
    exact Nat.le_trans this (Nat.mul_le_mul_right _ bound)

set_option maxRecDepth 100000 in
/-- An increment of a subscript in a product in a sum in parentheses behind a sign: seven nodes
below one another, two of them links of one chain. -/
theorem height_bounded_sum :
    ∃ u, parseSource "int x=-(a+b*c[d]++);" = .ok u ∧
      u.height 0 = 5 ∧ u.height 1 = 7 ∧ u.longestChain = 2 ∧
      u.height 0 ≤ 16 * nestingLimit ∧ u.height 1 ≤ 16 * nestingLimit * (1 + u.longestChain) := by
  obtain ⟨u, accepted, plain, height, chain⟩ : ∃ u, parseSource "int x=-(a+b*c[d]++);" = .ok u ∧
      u.height 0 = 5 ∧ u.height 1 = 7 ∧ u.longestChain = 2 :=
    ⟨_, by cbv, by cbv, by cbv, by cbv⟩
  exact ⟨u, accepted, plain, height, chain, height_bounded _ u accepted⟩

/-! ## Programs of every height -/

/-- A name with `++` behind it `n` times. -/
def chained : Nat → Expr
  | 0 => .ident "x"
  | n + 1 => .postIncrement (chained n)

/-- The program whose only variable begins as a name with `++` behind it `n` times. -/
def chainProgram (n : Nat) : Program :=
  ⟨[.var ⟨"int", [⟨.plain "x", some (chained n)⟩]⟩]⟩

theorem chained_isPostfixBase (n : Nat) : (chained n).isPostfixBase = true := by
  cases n <;> rfl

theorem chained_innerLevels (n : Nat) : (chained n).innerLevels = 0 := by
  induction n with
  | zero => rfl
  | succ n ih => exact ih

theorem chained_wellFormed (n : Nat) : (chained n).WellFormed := by
  induction n with
  | zero => exact Expr.spells_x
  | succ n ih => exact ⟨chained_isPostfixBase n, ih⟩

theorem chained_height (link n : Nat) : (Node.expr (chained n)).height link = n * link + 1 := by
  induction n with
  | zero =>
      rw [Nat.zero_mul]
      exact Node.height_eq link (.expr (.ident "x"))
  | succ n ih =>
      have link_first : (Node.expr (chained (n + 1))).height link =
          link + max ((Node.expr (chained n)).height link) 0 := Node.height_eq link _
      rw [link_first, ih, Nat.succ_mul]
      omega

/-- No number limits the heights of accepted programs: behind a name, `++` may be written any
number of times. -/
theorem height_unbounded (n : Nat) :
    parseSource (chainProgram n).print = .ok (chainProgram n) ∧
      (chainProgram n).height 1 = n + 1 := by
  have wf : (chainProgram n).WellFormed := by
    refine List.forall_mem_singleton.2 ⟨spells_int, List.cons_ne_nil _ _, ?_⟩
    refine List.forall_mem_singleton.2 ⟨Expr.spells_x, ?_⟩
    rintro e ⟨⟩
    exact chained_wellFormed n
  have levels : (chainProgram n).levels = 1 := by
    show max (max (1 + (chained n).innerLevels) 0) 0 = 1
    rw [chained_innerLevels]
    rfl
  refine ⟨(parseSource_eq_ok _ _).2 ⟨wf, ?_, Program.scan_print wf.printable⟩, ?_⟩
  · rw [levels]
    decide
  · show max (max ((Node.expr (chained n)).height 1) 0) 0 = n + 1
    rw [chained_height]
    omega

/-- `int x = x++…++;` with `++` as often as sixteen times the nesting limit is accepted, and its
tree is higher than that. -/
theorem height_exceeds_limit :
    parseSource (chainProgram 4096).print = .ok (chainProgram 4096) ∧
      ¬ (chainProgram 4096).height 1 ≤ 16 * nestingLimit := by
  obtain ⟨accepted, height⟩ := height_unbounded 4096
  refine ⟨accepted, ?_⟩
  rw [height]
  decide

end ProcLang
