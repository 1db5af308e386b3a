import ProcLang.Parse.Session

/-!
# Changing the texts of a tree

A tree keeps texts in four roles: names, types, literals and operators. `mapTexts f` applies
`f` to all of them and leaves the tree otherwise as it is; with `id` it leaves the whole tree.
-/

set_option autoImplicit false

namespace ProcLang

namespace Expr

mutual

/-- Applies `f` to every text of an expression. -/
def mapTexts (f : String → String) : Expr → Expr
  | literal kind text => literal kind (f text)
  | ident name => ident (f name)
  | paren inner => paren (mapTexts f inner)
  | binary op lhs rhs => binary (f op) (mapTexts f lhs) (mapTexts f rhs)
  | prefixOp op arg => prefixOp (f op) (mapTexts f arg)
  | postIncrement base => postIncrement (mapTexts f base)
  | postDecrement base => postDecrement (mapTexts f base)
  | call callee args => call (mapTexts f callee) (mapTextsEach f args)
  | subscript base index => subscript (mapTexts f base) (mapTexts f index)

/-- Applies `f` to every text of some expressions. -/
def mapTextsEach (f : String → String) : List Expr → List Expr
  | [] => []
  | e :: es => mapTexts f e :: mapTextsEach f es

end

variable (f : String → String)

theorem mapTextsEach_eq_map (es : List Expr) : mapTextsEach f es = es.map (mapTexts f) := by
  induction es with
  | nil => rfl
  | cons e es ih => rw [mapTextsEach, ih, List.map_cons]

mutual

theorem mapTexts_id : (e : Expr) → e.mapTexts id = e
  | literal _ _ | ident _ => rfl
  | paren a | postIncrement a | postDecrement a => by rw [mapTexts, mapTexts_id a]
  | prefixOp op a => by rw [mapTexts, mapTexts_id a, id]
  | binary op a b => by rw [mapTexts, mapTexts_id a, mapTexts_id b, id]
  | subscript a b => by rw [mapTexts, mapTexts_id a, mapTexts_id b]
  | call a es => by rw [mapTexts, mapTexts_id a, mapTextsEach_id es]

theorem mapTextsEach_id : (es : List Expr) → mapTextsEach id es = es
  | [] => rfl
  | e :: es => by rw [mapTextsEach, mapTexts_id e, mapTextsEach_id es]

end

end Expr

/-- A function that changes nothing changes nothing in a list. -/
theorem map_of_forall_eq {α : Type} {f : α → α} (h : ∀ a, f a = a) (items : List α) :
    items.map f = items := by
  rw [show f = id from funext h, List.map_id]

/-- Applies `f` to a declared name. -/
def Declarator.mapTexts (f : String → String) : Declarator → Declarator
  | plain name => plain (f name)
  | pointer name => pointer (f name)

/-- Applies `f` to every text of a declared name with its initial value. -/
def Binding.mapTexts (f : String → String) (b : Binding) : Binding :=
  ⟨b.declarator.mapTexts f, b.initial.map (Expr.mapTexts f)⟩

/-- Applies `f` to every text of a list of variables. -/
def VarDecl.mapTexts (f : String → String) (d : VarDecl) : VarDecl :=
  ⟨f d.typeName, d.bindings.map (Binding.mapTexts f)⟩

/-- Applies `f` to every text of a parameter. -/
def Param.mapTexts (f : String → String) (p : Param) : Param :=
  ⟨f p.typeName, p.binding.mapTexts f⟩

mutual

/-- Applies `f` to every text of a statement. -/
def Stmt.mapTexts (f : String → String) : Stmt → Stmt
  | .block body => .block (Stmt.mapTextsEach f body)
  | .conditional test body rest =>
      .conditional (test.mapTexts f) (Stmt.mapTexts f body) (Alternatives.mapTexts f rest)
  | .whileLoop test body => .whileLoop (test.mapTexts f) (Stmt.mapTexts f body)
  | .repeatLoop body => .repeatLoop (Stmt.mapTexts f body)
  | .forLoop => .forLoop
  | .breakOut => .breakOut
  | .continueOn => .continueOn
  | .returnValue value => .returnValue (value.mapTexts f)
  | .declare decl => .declare (decl.mapTexts f)
  | .evaluate value => .evaluate (value.mapTexts f)

/-- Applies `f` to every text of what follows the first branch of a conditional. -/
def Alternatives.mapTexts (f : String → String) : Alternatives → Alternatives
  | .nothing => .nothing
  | .otherwise body => .otherwise (Stmt.mapTexts f body)
  | .elseIf test body rest =>
      .elseIf (test.mapTexts f) (Stmt.mapTexts f body) (Alternatives.mapTexts f rest)

/-- Applies `f` to every text of some statements. -/
def Stmt.mapTextsEach (f : String → String) : List Stmt → List Stmt
  | [] => []
  | s :: ss => Stmt.mapTexts f s :: Stmt.mapTextsEach f ss

end

theorem Stmt.mapTextsEach_eq_map (f : String → String) (ss : List Stmt) :
    Stmt.mapTextsEach f ss = ss.map (Stmt.mapTexts f) := by
  induction ss with
  | nil => rfl
  | cons s ss ih => rw [Stmt.mapTextsEach, ih, List.map_cons]

/-- Applies `f` to every text of a function. -/
def FuncDecl.mapTexts (f : String → String) (d : FuncDecl) : FuncDecl :=
  ⟨f d.typeName, d.declarator.mapTexts f, d.params.map (Param.mapTexts f),
    d.body.map (List.map (Stmt.mapTexts f))⟩

/-- Applies `f` to every text of a declaration. -/
def Decl.mapTexts (f : String → String) : Decl → Decl
  | .func d => .func (d.mapTexts f)
  | .var d => .var (d.mapTexts f)
  | .param d => .param (d.mapTexts f)

/-- Applies `f` to every text of a program. -/
def Program.mapTexts (f : String → String) (p : Program) : Program :=
  ⟨p.decls.map (Decl.mapTexts f)⟩

/-- Applies `f` to every text of a phrase. -/
def Phrase.mapTexts (f : String → String) : Phrase → Phrase
  | program tree => program (tree.mapTexts f)
  | decl tree => decl (tree.mapTexts f)
  | stmt tree => stmt (tree.mapTexts f)
  | expr tree => expr (tree.mapTexts f)

/-! ## With `id` nothing changes -/

theorem Declarator.mapTexts_id (d : Declarator) : d.mapTexts id = d := by
  cases d <;> rfl

theorem Binding.mapTexts_id (b : Binding) : b.mapTexts id = b := by
  obtain ⟨d, initial⟩ := b
  cases initial with
  | none => rw [mapTexts, d.mapTexts_id, Option.map_none]
  | some e => rw [mapTexts, d.mapTexts_id, Option.map_some, e.mapTexts_id]

theorem VarDecl.mapTexts_id (d : VarDecl) : d.mapTexts id = d := by
  rw [mapTexts, map_of_forall_eq Binding.mapTexts_id, id]

theorem Param.mapTexts_id (p : Param) : p.mapTexts id = p := by
  rw [mapTexts, p.binding.mapTexts_id, id]

mutual

theorem Stmt.mapTexts_id : (s : Stmt) → s.mapTexts id = s
  | .block body => by rw [Stmt.mapTexts, Stmt.mapTextsEach_id body]
  | .conditional test body rest => by
      rw [Stmt.mapTexts, test.mapTexts_id, Stmt.mapTexts_id body, Alternatives.mapTexts_id rest]
  | .whileLoop test body => by rw [Stmt.mapTexts, test.mapTexts_id, Stmt.mapTexts_id body]
  | .repeatLoop body => by rw [Stmt.mapTexts, Stmt.mapTexts_id body]
  | .forLoop | .breakOut | .continueOn => rfl
  | .returnValue value => by rw [Stmt.mapTexts, value.mapTexts_id]
  | .declare decl => by rw [Stmt.mapTexts, decl.mapTexts_id]
  | .evaluate value => by rw [Stmt.mapTexts, value.mapTexts_id]

theorem Alternatives.mapTexts_id : (a : Alternatives) → a.mapTexts id = a
  | .nothing => rfl
  | .otherwise body => by rw [Alternatives.mapTexts, Stmt.mapTexts_id body]
  | .elseIf test body rest => by
      rw [Alternatives.mapTexts, test.mapTexts_id, Stmt.mapTexts_id body,
        Alternatives.mapTexts_id rest]

theorem Stmt.mapTextsEach_id : (ss : List Stmt) → Stmt.mapTextsEach id ss = ss
  | [] => rfl
  | s :: ss => by rw [Stmt.mapTextsEach, Stmt.mapTexts_id s, Stmt.mapTextsEach_id ss]

end

theorem FuncDecl.mapTexts_id (d : FuncDecl) : d.mapTexts id = d := by
  obtain ⟨typeName, declarator, params, body⟩ := d
  have block : body.map (List.map (Stmt.mapTexts id)) = body := by
    cases body with
    | none => rfl
    | some ss => rw [Option.map_some, map_of_forall_eq Stmt.mapTexts_id]
  rw [mapTexts, declarator.mapTexts_id, map_of_forall_eq Param.mapTexts_id, block, id]

theorem Decl.mapTexts_id (d : Decl) : d.mapTexts id = d := by
  cases d with
  | func d => rw [mapTexts, d.mapTexts_id]
  | var d => rw [mapTexts, d.mapTexts_id]
  | param d => rw [mapTexts, d.mapTexts_id]

theorem Program.mapTexts_id (p : Program) : p.mapTexts id = p := by
  rw [mapTexts, map_of_forall_eq Decl.mapTexts_id]

theorem Phrase.mapTexts_id (p : Phrase) : p.mapTexts id = p := by
  cases p with
  | program tree => rw [mapTexts, tree.mapTexts_id]
  | decl tree => rw [mapTexts, tree.mapTexts_id]
  | stmt tree => rw [mapTexts, tree.mapTexts_id]
  | expr tree => rw [mapTexts, tree.mapTexts_id]

end ProcLang
