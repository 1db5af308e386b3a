import ProcLang.Tree.Lexemes
import ProcLang.Tree.Visitor
import ProcLang.Tree.WellFormed

/-!
# The nodes of a tree

Declarations, statements and expressions are the nodes of a tree. Every node has its
children, the nodes directly below it in source order, and all nodes of a tree are listed
with each node before the ones below it. Names, types, parameters, variables and the block
of a function are no nodes of their own; what they hold belongs to the node around them.

Children are smaller than their node, so a property passes from the children of every node
to the node, and then to the whole tree (`Node.induction`).
-/

set_option autoImplicit false

namespace ProcLang

/-- The expressions directly below an expression. -/
def Expr.parts : Expr → List Expr
  | literal _ _ | ident _ => []
  | paren inner => [inner]
  | binary _ lhs rhs => [lhs, rhs]
  | prefixOp _ arg => [arg]
  | postIncrement base => [base]
  | postDecrement base => [base]
  | call callee args => callee :: args
  | subscript base index => [base, index]

/-- The initial values among variables. -/
def initialValues (bs : List Binding) : List Expr :=
  bs.filterMap Binding.initial

/-- The conditions and bodies that follow the first branch of a conditional. -/
def Alternatives.children : Alternatives → List Node
  | .nothing => []
  | .otherwise body => [.stmt body]
  | .elseIf test body rest => .expr test :: .stmt body :: children rest

/-- The nodes directly below a statement. -/
def Stmt.children : Stmt → List Node
  | .block body => body.map .stmt
  | .conditional test body rest => .expr test :: .stmt body :: rest.children
  | .whileLoop test body => [.expr test, .stmt body]
  | .repeatLoop body => [.stmt body]
  | .forLoop | .breakOut | .continueOn => []
  | .returnValue value => [.expr value]
  | .declare decl => (initialValues decl.bindings).map .expr
  | .evaluate value => [.expr value]

/-- The nodes directly below a declaration. -/
def Decl.children : Decl → List Node
  | .func d =>
      (initialValues (d.params.map Param.binding)).map .expr ++ (d.body.getD []).map .stmt
  | .var d => (initialValues d.bindings).map .expr
  | .param d => (initialValues [d.binding]).map .expr

namespace Node

/-- The nodes directly below a node. -/
def children : Node → List Node
  | decl d => d.children
  | stmt s => s.children
  | expr e => e.parts.map expr

/-- The lexemes of a node. -/
@[simp]
def lexemes : Node → List Lexeme
  | decl d => d.lexemes
  | stmt s => s.lexemes
  | expr e => e.lexemes

/-- Well-formed nodes. -/
def WellFormed : Node → Prop
  | decl d => d.WellFormed
  | stmt s => s.WellFormed
  | expr e => e.WellFormed

end Node

/-! ## Children are smaller -/

theorem Binding.initial_lt {b : Binding} {e : Expr} (initial : b.initial = some e) :
    sizeOf e < sizeOf b := by
  obtain ⟨d, value⟩ := b
  obtain rfl : value = some e := initial
  simp only [Binding.mk.sizeOf_spec, Option.some.sizeOf_spec]
  omega

theorem initialValues_lt {bs : List Binding} {e : Expr} (mem : e ∈ initialValues bs) :
    sizeOf e < sizeOf bs := by
  obtain ⟨b, inside, initial⟩ := List.mem_filterMap.1 mem
  exact Nat.lt_trans (Binding.initial_lt initial) (List.sizeOf_lt_of_mem inside)

theorem Expr.parts_lt {e part : Expr} (mem : part ∈ e.parts) : sizeOf part < sizeOf e := by
  cases e with
  | call callee args =>
      -- the only expression with a list of expressions below it
      have inside := fun h : part ∈ args => List.sizeOf_lt_of_mem h
      grind [parts]
  | _ => grind [parts]

theorem Alternatives.children_le {a : Alternatives} {c : Node} (mem : c ∈ a.children) :
    sizeOf c ≤ sizeOf a := by
  fun_induction Alternatives.children a with
  | case1 => exact absurd mem List.not_mem_nil
  | case2 body => grind
  | case3 test body rest ih => grind

theorem Stmt.children_le {s : Stmt} {c : Node} (mem : c ∈ s.children) : sizeOf c ≤ sizeOf s := by
  cases s with
  | block body =>
      obtain ⟨s', inside, rfl⟩ := List.mem_map.1 mem
      have := List.sizeOf_lt_of_mem inside
      grind
  | conditional test body rest =>
      have others := fun h : c ∈ rest.children => Alternatives.children_le h
      grind [children]
  | declare decl =>
      obtain ⟨e, inside, rfl⟩ := List.mem_map.1 mem
      have := initialValues_lt inside
      obtain ⟨typeName, bindings⟩ := decl
      grind
  | _ => grind [children]

theorem Decl.children_le {d : Decl} {c : Node} (mem : c ∈ d.children) : sizeOf c ≤ sizeOf d := by
  cases d with
  | func d =>
      obtain ⟨typeName, name, params, body⟩ := d
      rcases List.mem_append.1 mem with mem | mem
      · obtain ⟨e, inside, rfl⟩ := List.mem_map.1 mem
        obtain ⟨b, hb, initial⟩ := List.mem_filterMap.1 inside
        obtain ⟨p, hp, rfl⟩ := List.mem_map.1 hb
        have := Binding.initial_lt initial
        have := List.sizeOf_lt_of_mem hp
        obtain ⟨typeName', binding⟩ := p
        grind
      · obtain ⟨s, inside, rfl⟩ := List.mem_map.1 mem
        cases body with
        | none => exact absurd inside List.not_mem_nil
        | some body =>
            have := List.sizeOf_lt_of_mem inside
            grind
  | var d =>
      obtain ⟨e, inside, rfl⟩ := List.mem_map.1 mem
      have := initialValues_lt inside
      obtain ⟨typeName, bindings⟩ := d
      grind
  | param d =>
      obtain ⟨e, inside, rfl⟩ := List.mem_map.1 mem
      have := initialValues_lt inside
      obtain ⟨typeName, binding⟩ := d
      grind

namespace Node

theorem child_lt {n c : Node} (mem : c ∈ n.children) : sizeOf c < sizeOf n := by
  cases n with
  | decl d =>
      have := Decl.children_le mem
      grind
  | stmt s =>
      have := Stmt.children_le mem
      grind
  | expr e =>
      obtain ⟨part, inside, rfl⟩ := List.mem_map.1 mem
      have := Expr.parts_lt inside
      grind

/-- What passes from the children of a node to the node holds of every node. -/
theorem induction {motive : Node → Prop}
    (step : ∀ n, (∀ c ∈ n.children, motive c) → motive n) (n : Node) : motive n :=
  step n fun c _ => induction step c
termination_by sizeOf n
decreasing_by exact child_lt ‹_›

/-- A node, and all nodes below it, each before the ones below it. -/
def nodes (n : Node) : List Node :=
  n :: n.children.attach.flatMap fun c => nodes c.1
termination_by sizeOf n
decreasing_by exact child_lt c.2

theorem nodes_eq (n : Node) : n.nodes = n :: n.children.flatMap nodes := by
  rw [nodes, List.flatMap_subtype (g := nodes) fun _ _ => rfl, List.unattach_attach]

theorem mem_nodes_self (n : Node) : n ∈ n.nodes := by
  rw [nodes_eq]
  exact List.mem_cons_self

theorem mem_nodes_of_child {n c m : Node} (child : c ∈ n.children) (below : m ∈ c.nodes) :
    m ∈ n.nodes := by
  rw [nodes_eq]
  exact List.mem_cons_of_mem _ (List.mem_flatMap.2 ⟨c, child, below⟩)

/-- What passes from a node to its children holds of all nodes below it. -/
theorem forall_nodes {P : Node → Prop} (keeps : ∀ n, P n → ∀ c ∈ n.children, P c) {n : Node}
    (h : P n) : ∀ m ∈ n.nodes, P m := by
  induction n using Node.induction with
  | step n ih =>
      rw [nodes_eq, List.forall_mem_cons]
      refine ⟨h, fun m mem => ?_⟩
      obtain ⟨c, child, below⟩ := List.mem_flatMap.1 mem
      exact ih c child (keeps n h c child) m below

end Node

/-- All nodes of a program in source order. -/
def Program.nodes (p : Program) : List Node :=
  p.decls.flatMap fun d => (Node.decl d).nodes

/-! ## Nodes of a well-formed program -/

theorem Alternatives.WellFormed.child {a : Alternatives} (wf : a.WellFormed) :
    ∀ c ∈ a.children, c.WellFormed := by
  induction a using Alternatives.children.induct with
  | case1 => exact fun c mem => absurd mem List.not_mem_nil
  | case2 body => exact List.forall_mem_singleton.2 wf
  | case3 test body rest ih =>
      obtain ⟨test, body, -, rest⟩ := wf
      exact List.forall_mem_cons.2 ⟨test, List.forall_mem_cons.2 ⟨body, ih rest⟩⟩

theorem VarDecl.WellFormed.child {d : VarDecl} (wf : d.WellFormed) :
    ∀ c ∈ (initialValues d.bindings).map Node.expr, c.WellFormed := by
  intro c mem
  obtain ⟨e, inside, rfl⟩ := List.mem_map.1 mem
  obtain ⟨b, binding, initial⟩ := List.mem_filterMap.1 inside
  exact (wf.2.2 b binding).2 e initial

/-- The children of a well-formed function are the statements of its body: no parameter has
an initial value. -/
theorem FuncDecl.WellFormed.children_eq {d : FuncDecl} (wf : d.WellFormed) :
    (Decl.func d).children = (d.body.getD []).map .stmt := by
  obtain ⟨-, -, params, -⟩ := wf
  have none : initialValues (d.params.map Param.binding) = [] :=
    List.filterMap_eq_nil_iff.2 (List.forall_mem_map.2 fun p param => (params p param).2.2)
  rw [Decl.children, none, List.map_nil, List.nil_append]

theorem FuncDecl.WellFormed.child {d : FuncDecl} (wf : d.WellFormed) :
    ∀ c ∈ (Decl.func d).children, c.WellFormed := by
  rw [wf.children_eq, List.forall_mem_map]
  obtain ⟨-, -, -, body⟩ := wf
  intro s inside
  cases hbody : d.body with
  | none =>
      rw [hbody] at inside
      exact absurd inside List.not_mem_nil
  | some ss =>
      rw [hbody] at inside
      exact Stmt.allWellFormed_iff.1 (body ss hbody) s inside

namespace Node

/-- The children of a well-formed node are well-formed. -/
theorem WellFormed.child {n : Node} (wf : n.WellFormed) : ∀ c ∈ n.children, c.WellFormed := by
  cases n with
  | decl d =>
      cases d with
      | func d => exact FuncDecl.WellFormed.child wf
      | var d => exact VarDecl.WellFormed.child wf
      | param d => exact wf.elim
  | stmt s =>
      cases s with
      | block body => exact List.forall_mem_map.2 (Stmt.wellFormed_braces.1 wf)
      | conditional test body rest =>
          obtain ⟨test, body, -, rest⟩ := wf
          exact List.forall_mem_cons.2 ⟨test, List.forall_mem_cons.2 ⟨body, rest.child⟩⟩
      | declare decl => exact VarDecl.WellFormed.child wf
      | whileLoop test body =>
          exact List.forall_mem_cons.2 ⟨wf.1, List.forall_mem_singleton.2 wf.2⟩
      | repeatLoop body => exact List.forall_mem_singleton.2 wf
      | returnValue value => exact List.forall_mem_singleton.2 wf
      | evaluate value => exact List.forall_mem_singleton.2 wf
      | _ => exact fun c mem => absurd mem List.not_mem_nil
  | expr e =>
      refine List.forall_mem_map.2 ?_
      cases e with
      | paren inner => exact List.forall_mem_singleton.2 wf
      | binary op lhs rhs =>
          exact List.forall_mem_cons.2 ⟨wf.2.1, List.forall_mem_singleton.2 wf.2.2⟩
      | prefixOp op arg => exact List.forall_mem_singleton.2 wf.2.2
      | postIncrement base => exact List.forall_mem_singleton.2 wf.2
      | postDecrement base => exact List.forall_mem_singleton.2 wf.2
      | call callee args =>
          exact List.forall_mem_cons.2 ⟨wf.2.1, Expr.allWellFormed_iff.1 wf.2.2⟩
      | subscript base index =>
          exact List.forall_mem_cons.2 ⟨wf.2.1, List.forall_mem_singleton.2 wf.2.2⟩
      | _ => exact fun e mem => absurd mem List.not_mem_nil

end Node

theorem Program.WellFormed.nodes {p : Program} (wf : p.WellFormed) :
    ∀ n ∈ p.nodes, n.WellFormed := by
  intro n mem
  obtain ⟨d, decl, below⟩ := List.mem_flatMap.1 mem
  exact Node.forall_nodes (fun _ wf => wf.child) (wf d decl : (Node.decl d).WellFormed) n below

/-! ## Declarations -/

/-- Declarations among the nodes. -/
def Node.isDecl : Node → Bool
  | .decl _ => true
  | _ => false

theorem Alternatives.isDecl_children (a : Alternatives) : ∀ c ∈ a.children, c.isDecl = false := by
  induction a using Alternatives.children.induct with
  | case1 => exact fun c mem => absurd mem List.not_mem_nil
  | case2 body => exact List.forall_mem_singleton.2 rfl
  | case3 test body rest ih => exact List.forall_mem_cons.2 ⟨rfl, List.forall_mem_cons.2 ⟨rfl, ih⟩⟩

namespace Node

/-- No declaration stands below another node. -/
theorem isDecl_child (n : Node) : ∀ c ∈ n.children, c.isDecl = false := by
  cases n with
  | decl d =>
      cases d with
      | func d =>
          exact List.forall_mem_append.2
            ⟨List.forall_mem_map.2 fun _ _ => rfl, List.forall_mem_map.2 fun _ _ => rfl⟩
      | var d => exact List.forall_mem_map.2 fun _ _ => rfl
      | param d => exact List.forall_mem_map.2 fun _ _ => rfl
  | stmt s =>
      cases s with
      | conditional test body rest =>
          exact List.forall_mem_cons.2 ⟨rfl, List.forall_mem_cons.2 ⟨rfl, rest.isDecl_children⟩⟩
      | block body => exact List.forall_mem_map.2 fun _ _ => rfl
      | declare decl => exact List.forall_mem_map.2 fun _ _ => rfl
      | _ => simp [children, Stmt.children, isDecl]
  | expr e => exact List.forall_mem_map.2 fun _ _ => rfl

theorem countP_isDecl (n : Node) : n.nodes.countP isDecl = n.isDecl.toNat := by
  have below : ∀ c ∈ n.children.flatMap nodes, ¬ c.isDecl = true := by
    intro m mem
    obtain ⟨c, child, inside⟩ := List.mem_flatMap.1 mem
    have := forall_nodes (fun n _ => n.isDecl_child) (n.isDecl_child c child) m inside
    simp [this]
  rw [nodes_eq, List.countP_cons, List.countP_eq_zero.2 below, Nat.zero_add]
  cases n.isDecl <;> rfl

end Node

/-- The declarations among the nodes of a program are those of the program. -/
theorem Program.countP_isDecl (p : Program) : p.nodes.countP Node.isDecl = p.decls.length := by
  have each : List.countP Node.isDecl ∘ (fun d => (Node.decl d).nodes) = fun _ => 1 :=
    funext fun d => (Node.decl d).countP_isDecl
  rw [nodes, List.countP_flatMap, each, List.map_const', List.sum_replicate_nat, Nat.mul_one]

end ProcLang
