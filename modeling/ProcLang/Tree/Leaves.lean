import ProcLang.Tree.Nodes

/-!
# The leaves of a tree

Literals and names stand at the leaves of expressions. `mapLeaves f` applies `f` to the texts
of all leaves of a tree and leaves the rest as it is: declared names, types and operators keep
their texts.
-/

set_option autoImplicit false

namespace ProcLang

/-- The text of a leaf. -/
def Node.leafText? : Node → Option String
  | .expr (.literal _ text) => some text
  | .expr (.ident name) => some name
  | _ => none

namespace Expr

mutual

/-- Applies `f` to the leaves of an expression. -/
def mapLeaves (f : String → String) : Expr → Expr
  | literal kind text => literal kind (f text)
  | ident name => ident (f name)
  | paren inner => paren (mapLeaves f inner)
  | binary op lhs rhs => binary op (mapLeaves f lhs) (mapLeaves f rhs)
  | prefixOp op arg => prefixOp op (mapLeaves f arg)
  | postIncrement base => postIncrement (mapLeaves f base)
  | postDecrement base => postDecrement (mapLeaves f base)
  | call callee args => call (mapLeaves f callee) (mapLeavesEach f args)
  | subscript base index => subscript (mapLeaves f base) (mapLeaves f index)

/-- Applies `f` to the leaves of some expressions. -/
def mapLeavesEach (f : String → String) : List Expr → List Expr
  | [] => []
  | e :: es => mapLeaves f e :: mapLeavesEach f es

end

theorem mapLeavesEach_eq_map (f : String → String) (es : List Expr) :
    mapLeavesEach f es = es.map (mapLeaves f) := by
  induction es with
  | nil => rfl
  | cons e es ih => rw [mapLeavesEach, ih, List.map_cons]

end Expr

/-- Applies `f` to the leaves of an initial value. -/
def Binding.mapLeaves (f : String → String) (b : Binding) : Binding :=
  ⟨b.declarator, b.initial.map (Expr.mapLeaves f)⟩

/-- Applies `f` to the leaves of a list of variables. -/
def VarDecl.mapLeaves (f : String → String) (d : VarDecl) : VarDecl :=
  ⟨d.typeName, d.bindings.map (Binding.mapLeaves f)⟩

/-- Applies `f` to the leaves of a parameter. -/
def Param.mapLeaves (f : String → String) (p : Param) : Param :=
  ⟨p.typeName, p.binding.mapLeaves f⟩

mutual

/-- Applies `f` to the leaves of a statement. -/
def Stmt.mapLeaves (f : String → String) : Stmt → Stmt
  | .block body => .block (Stmt.mapLeavesEach f body)
  | .conditional test body rest =>
      .conditional (test.mapLeaves f) (Stmt.mapLeaves f body) (Alternatives.mapLeaves f rest)
  | .whileLoop test body => .whileLoop (test.mapLeaves f) (Stmt.mapLeaves f body)
  | .repeatLoop body => .repeatLoop (Stmt.mapLeaves f body)
  | .forLoop => .forLoop
  | .breakOut => .breakOut
  | .continueOn => .continueOn
  | .returnValue value => .returnValue (value.mapLeaves f)
  | .declare decl => .declare (decl.mapLeaves f)
  | .evaluate value => .evaluate (value.mapLeaves f)

/-- Applies `f` to the leaves of what follows the first branch of a conditional. -/
def Alternatives.mapLeaves (f : String → String) : Alternatives → Alternatives
  | .nothing => .nothing
  | .otherwise body => .otherwise (Stmt.mapLeaves f body)
  | .elseIf test body rest =>
      .elseIf (test.mapLeaves f) (Stmt.mapLeaves f body) (Alternatives.mapLeaves f rest)

/-- Applies `f` to the leaves of some statements. -/
def Stmt.mapLeavesEach (f : String → String) : List Stmt → List Stmt
  | [] => []
  | s :: ss => Stmt.mapLeaves f s :: Stmt.mapLeavesEach f ss

end

theorem Stmt.mapLeavesEach_cons (f : String → String) (s : Stmt) (ss : List Stmt) :
    Stmt.mapLeavesEach f (s :: ss) = s.mapLeaves f :: Stmt.mapLeavesEach f ss := by
  rw [Stmt.mapLeavesEach]

/-- Applies `f` to the leaves of a function. -/
def FuncDecl.mapLeaves (f : String → String) (d : FuncDecl) : FuncDecl :=
  ⟨d.typeName, d.declarator, d.params.map (Param.mapLeaves f),
    d.body.map (Stmt.mapLeavesEach f)⟩

/-- Applies `f` to the leaves of a declaration. -/
def Decl.mapLeaves (f : String → String) : Decl → Decl
  | .func d => .func (d.mapLeaves f)
  | .var d => .var (d.mapLeaves f)
  | .param d => .param (d.mapLeaves f)

/-- Applies `f` to the leaves of a program. -/
def Program.mapLeaves (f : String → String) (p : Program) : Program :=
  ⟨p.decls.map (Decl.mapLeaves f)⟩

end ProcLang
