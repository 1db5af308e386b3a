import ProcLang.Tree.Basic

/-!
# Walking a tree

A visitor has one method for each family of nodes: declarations, statements and
expressions. A method is called on a node before anything below the node; it changes a
state and decides whether the walk goes on into the node. A program's declarations
are visited in order. The parameters and the body of a function, and the variables of
a declaration, are no nodes of their own: the walk goes straight to the expressions
and statements in them.
-/

set_option autoImplicit false

namespace ProcLang

/-- What to do at each family of nodes: the new state, and whether to walk on into the
node. -/
structure Visitor (σ : Type) where
  onDecl : Decl → σ → σ × Bool
  onStmt : Stmt → σ → σ × Bool
  onExpr : Expr → σ → σ × Bool

namespace Visitor

variable {σ : Type}

/-- Walks on below a node, if the method called on it agreed. -/
def descend (called : σ × Bool) (below : σ → σ) : σ :=
  if called.2 then below called.1 else called.1

variable (v : Visitor σ)

mutual

/-- Visits an expression and, if the method agrees, the expressions below it. -/
def visitExpr : Expr → σ → σ
  | .literal kind text, s => descend (v.onExpr (.literal kind text) s) fun s => s
  | .ident name, s => descend (v.onExpr (.ident name) s) fun s => s
  | .paren inner, s => descend (v.onExpr (.paren inner) s) fun s => visitExpr inner s
  | .binary op lhs rhs, s =>
      descend (v.onExpr (.binary op lhs rhs) s) fun s => visitExpr rhs (visitExpr lhs s)
  | .prefixOp op arg, s => descend (v.onExpr (.prefixOp op arg) s) fun s => visitExpr arg s
  | .postIncrement base, s =>
      descend (v.onExpr (.postIncrement base) s) fun s => visitExpr base s
  | .postDecrement base, s =>
      descend (v.onExpr (.postDecrement base) s) fun s => visitExpr base s
  | .call callee args, s =>
      descend (v.onExpr (.call callee args) s) fun s => visitExprs args (visitExpr callee s)
  | .subscript base index, s =>
      descend (v.onExpr (.subscript base index) s) fun s => visitExpr index (visitExpr base s)

/-- Visits a list of expressions in order. -/
def visitExprs : List Expr → σ → σ
  | [], s => s
  | e :: es, s => visitExprs es (visitExpr e s)

end

/-- Visits the initial value of a declared name, if it has one. -/
def visitBinding (b : Binding) (s : σ) : σ :=
  match b.initial with
  | none => s
  | some e => v.visitExpr e s

/-- Visits the initial values of a list of variables in order. -/
def visitBindings (bs : List Binding) (s : σ) : σ :=
  bs.foldl (fun s b => v.visitBinding b s) s

mutual

/-- Visits a statement and, if the method agrees, everything below it. -/
def visitStmt : Stmt → σ → σ
  | .block body, s => descend (v.onStmt (.block body) s) fun s => visitStmts body s
  | .conditional test body rest, s =>
      descend (v.onStmt (.conditional test body rest) s) fun s =>
        visitAlternatives rest (visitStmt body (v.visitExpr test s))
  | .whileLoop test body, s =>
      descend (v.onStmt (.whileLoop test body) s) fun s => visitStmt body (v.visitExpr test s)
  | .repeatLoop body, s => descend (v.onStmt (.repeatLoop body) s) fun s => visitStmt body s
  | .forLoop, s => descend (v.onStmt .forLoop s) fun s => s
  | .breakOut, s => descend (v.onStmt .breakOut s) fun s => s
  | .continueOn, s => descend (v.onStmt .continueOn s) fun s => s
  | .returnValue value, s =>
      descend (v.onStmt (.returnValue value) s) fun s => v.visitExpr value s
  | .declare decl, s =>
      descend (v.onStmt (.declare decl) s) fun s => v.visitBindings decl.bindings s
  | .evaluate value, s => descend (v.onStmt (.evaluate value) s) fun s => v.visitExpr value s

/-- Visits the conditions and bodies that follow the first branch of a conditional. -/
def visitAlternatives : Alternatives → σ → σ
  | .nothing, s => s
  | .otherwise body, s => visitStmt body s
  | .elseIf test body more, s =>
      visitAlternatives more (visitStmt body (v.visitExpr test s))

/-- Visits a list of statements in order. -/
def visitStmts : List Stmt → σ → σ
  | [], s => s
  | t :: ts, s => visitStmts ts (visitStmt t s)

end

/-- Visits what stands below a function: the initial values of its parameters, and then
the statements of its body. -/
def visitFunc (d : FuncDecl) (s : σ) : σ :=
  let afterParams := v.visitBindings (d.params.map Param.binding) s
  match d.body with
  | none => afterParams
  | some body => v.visitStmts body afterParams

/-- Visits a declaration and, if the method agrees, everything below it. -/
def visitDecl : Decl → σ → σ
  | .func d, s => descend (v.onDecl (.func d) s) fun s => v.visitFunc d s
  | .var d, s => descend (v.onDecl (.var d) s) fun s => v.visitBindings d.bindings s
  | .param d, s => descend (v.onDecl (.param d) s) fun s => v.visitBinding d.binding s

/-- Visits every declaration of a program in order. -/
def visitProgram (p : Program) (state : σ) : σ :=
  p.decls.foldl (fun s d => v.visitDecl d s) state

end Visitor

/-! ## Recording visits -/

/-- The three families of nodes. -/
inductive Family where
  | decl
  | stmt
  | expr
deriving DecidableEq, Repr

/-- A node of a tree. -/
inductive Node where
  | decl (node : Decl)
  | stmt (node : Stmt)
  | expr (node : Expr)

/-- The visitor that appends each node of the chosen families to a list, and walks on
below such a node only if `walkOn`. The other families it walks through. -/
def Visitor.recorder (chosen : Family → Bool) (walkOn : Bool) : Visitor (List Node) where
  onDecl d visited := if chosen .decl then (visited ++ [.decl d], walkOn) else (visited, true)
  onStmt t visited := if chosen .stmt then (visited ++ [.stmt t], walkOn) else (visited, true)
  onExpr e visited := if chosen .expr then (visited ++ [.expr e], walkOn) else (visited, true)

/-- Every node of a program in the order of a walk. -/
def Program.visits (p : Program) : List Node :=
  (Visitor.recorder (fun _ => true) true).visitProgram p []

/-- The nodes of one family in the order of a walk; only the outermost ones unless
`walkOn`. -/
def Program.visitsOf (p : Program) (family : Family) (walkOn : Bool) : List Node :=
  (Visitor.recorder (fun f => f == family) walkOn).visitProgram p []

end ProcLang
