/-!
# Syntax trees

Programs, declarations, statements and expressions. Literals, names, type names and
operators keep their source text, and parentheses are nodes of their own, so a tree
holds every token of the text it was read from except blanks and comments.
-/

set_option autoImplicit false

namespace ProcLang

/-- The five families of literals. -/
inductive LiteralKind where
  | int
  | float
  | char
  | string
  | bool
deriving DecidableEq, Repr, Inhabited

/-- An expression. -/
inductive Expr where
  | literal (kind : LiteralKind) (text : String)
  | ident (name : String)
  | paren (inner : Expr)
  | binary (op : String) (lhs rhs : Expr)
  | prefixOp (op : String) (arg : Expr)
  | postIncrement (base : Expr)
  | postDecrement (base : Expr)
  | call (callee : Expr) (args : List Expr)
  | subscript (base index : Expr)
deriving Inhabited

/-- The name that a declaration introduces, with at most one pointer mark. -/
inductive Declarator where
  | plain (name : String)
  | pointer (name : String)
deriving DecidableEq, Repr, Inhabited

/-- A declarator with its initial value, if it has one. -/
structure Binding where
  declarator : Declarator
  initial : Option Expr

/-- Variables of one type. A tree that was read from a text has at least one. -/
structure VarDecl where
  typeName : String
  bindings : List Binding

/-- A function parameter. One that was read from a text has no initial value. -/
structure Param where
  typeName : String
  binding : Binding

mutual

/-- A statement. The word `for` is reserved and has no further grammar. -/
inductive Stmt where
  | block (body : List Stmt)
  | conditional (test : Expr) (body : Stmt) (rest : Alternatives)
  | whileLoop (test : Expr) (body : Stmt)
  | repeatLoop (body : Stmt)
  | forLoop
  | breakOut
  | continueOn
  | returnValue (value : Expr)
  | declare (decl : VarDecl)
  | evaluate (value : Expr)

/-- What follows the first branch of a conditional: any number of `elif` branches
and then at most one `else`. -/
inductive Alternatives where
  | nothing
  | otherwise (body : Stmt)
  | elseIf (test : Expr) (body : Stmt) (rest : Alternatives)

end

/-- A function: a definition if it has a body, and a prototype if not. -/
structure FuncDecl where
  typeName : String
  declarator : Declarator
  params : List Param
  body : Option (List Stmt)

/-- A declaration. Programs that were read from a text hold functions and variables
only. -/
inductive Decl where
  | func (decl : FuncDecl)
  | var (decl : VarDecl)
  | param (decl : Param)

/-- A translation unit: its declarations in source order. -/
structure Program where
  decls : List Decl

namespace Declarator

/-- The declared name. -/
def name : Declarator → String
  | plain name | pointer name => name

end Declarator

end ProcLang
