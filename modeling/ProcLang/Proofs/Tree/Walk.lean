import ProcLang.Tree.Nodes

/-!
# A walk calls its methods on the nodes in order

A visit of a node calls the method of its family and then, if that agrees, visits the
children one after another (`Visitor.visit_eq`). A visitor that never stops therefore calls
its methods on all nodes of a tree, once each and in the order in which they are listed
(`Visitor.visitProgram_eq`).
-/

set_option autoImplicit false

namespace ProcLang

namespace Visitor

variable {σ : Type} (v : Visitor σ)

/-- Calls the method of the family of a node. -/
def call : Node → σ → σ × Bool
  | .decl d => v.onDecl d
  | .stmt s => v.onStmt s
  | .expr e => v.onExpr e

/-- Visits a node. -/
def visit : Node → σ → σ
  | .decl d => v.visitDecl d
  | .stmt s => v.visitStmt s
  | .expr e => v.visitExpr e

/-- Visits nodes one after another. -/
def visitAll (ns : List Node) (s : σ) : σ :=
  ns.foldl (fun s n => v.visit n s) s

theorem visitAll_append (ns ms : List Node) (s : σ) :
    v.visitAll (ns ++ ms) s = v.visitAll ms (v.visitAll ns s) :=
  List.foldl_append

theorem visitExprs_eq (es : List Expr) (s : σ) :
    v.visitExprs es s = v.visitAll (es.map .expr) s := by
  induction es generalizing s with
  | nil => rfl
  | cons e es ih => exact ih (v.visitExpr e s)

theorem visitStmts_eq (ts : List Stmt) (s : σ) :
    v.visitStmts ts s = v.visitAll (ts.map .stmt) s := by
  induction ts generalizing s with
  | nil => rfl
  | cons t ts ih => exact ih (v.visitStmt t s)

theorem visitBindings_eq (bs : List Binding) (s : σ) :
    v.visitBindings bs s = v.visitAll ((initialValues bs).map .expr) s := by
  induction bs generalizing s with
  | nil => rfl
  | cons b bs ih =>
      obtain ⟨d, initial⟩ := b
      cases initial with
      | none => exact ih s
      | some e => exact ih (v.visitExpr e s)

theorem visitAlternatives_eq (a : Alternatives) (s : σ) :
    v.visitAlternatives a s = v.visitAll a.children s := by
  fun_induction Alternatives.children a generalizing s with
  | case1 => rfl
  | case2 body => rfl
  | case3 test body rest ih => exact ih _

theorem visitExpr_eq (e : Expr) (s : σ) :
    v.visitExpr e s = descend (v.onExpr e s) (v.visitAll (e.parts.map .expr)) := by
  cases e with
  | call callee args =>
      rw [visitExpr]
      congr 1
      exact funext fun s => v.visitExprs_eq args (v.visitExpr callee s)
  | _ => rfl

theorem visitStmt_eq (t : Stmt) (s : σ) :
    v.visitStmt t s = descend (v.onStmt t s) (v.visitAll t.children) := by
  cases t with
  | block body =>
      rw [visitStmt]
      congr 1
      exact funext fun s => v.visitStmts_eq body s
  | conditional test body rest =>
      rw [visitStmt]
      congr 1
      exact funext fun s => v.visitAlternatives_eq rest _
  | declare decl =>
      rw [visitStmt]
      congr 1
      exact funext fun s => v.visitBindings_eq decl.bindings s
  | _ => rfl

theorem visitDecl_eq (d : Decl) (s : σ) :
    v.visitDecl d s = descend (v.onDecl d s) (v.visitAll d.children) := by
  cases d with
  | func d =>
      -- the parameters come before the body, and no method is called on the block of the body
      rw [visitDecl]
      congr 1
      funext s
      rw [visitFunc, Decl.children, visitAll_append, visitBindings_eq]
      cases d.body with
      | none => rfl
      | some body => exact v.visitStmts_eq body _
  | var d =>
      rw [visitDecl]
      congr 1
      exact funext fun s => v.visitBindings_eq d.bindings s
  | param d =>
      rw [visitDecl]
      congr 1
      exact funext fun s => v.visitBindings_eq [d.binding] s

/-- One step of a walk: the method of the node, and then its children. -/
theorem visit_eq (n : Node) (s : σ) :
    v.visit n s = descend (v.call n s) (v.visitAll n.children) := by
  cases n with
  | decl d => exact v.visitDecl_eq d s
  | stmt t => exact v.visitStmt_eq t s
  | expr e => exact v.visitExpr_eq e s

/-- A visitor that walks on below every node. -/
def Thorough : Prop :=
  ∀ n s, (v.call n s).2 = true

/-- Calls the methods on nodes one after another. -/
def callAll (ns : List Node) (s : σ) : σ :=
  ns.foldl (fun s n => (v.call n s).1) s

variable {v}

/-- The whole walk below a node: the methods of all its nodes in order. -/
theorem Thorough.visit_eq_callAll (h : v.Thorough) (n : Node) (s : σ) :
    v.visit n s = v.callAll n.nodes s := by
  induction n using Node.induction generalizing s with
  | step n ih =>
      rw [visit_eq, descend, if_pos (h n s), Node.nodes_eq, callAll, List.foldl_cons]
      -- the children one by one, each by its own walk
      generalize (v.call n s).1 = s
      generalize n.children = cs at ih
      induction cs generalizing s with
      | nil => rfl
      | cons c cs others =>
          rw [List.forall_mem_cons] at ih
          rw [List.flatMap_cons, List.foldl_append]
          show v.visitAll cs (v.visit c s) = _
          rw [ih.1 s]
          exact others _ ih.2

theorem Thorough.visitProgram_eq (h : v.Thorough) (p : Program) (s : σ) :
    v.visitProgram p s = v.callAll p.nodes s := by
  rw [visitProgram, callAll, Program.nodes, List.foldl_flatMap]
  congr 1
  funext s d
  exact h.visit_eq_callAll (.decl d) s

end Visitor

end ProcLang
