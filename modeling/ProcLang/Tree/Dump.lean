import ProcLang.Text.Quoted
import ProcLang.Tree.Basic

/-!
# Structural dumps

A dump shows a tree node by node, with the name of every node and of every field. It
is first built as a value of records, tuples, lists and leaves, and then written either
on one line or with one item a line.
-/

set_option autoImplicit false

namespace ProcLang

/-- The shape of a dump. A field is a value with its label. -/
inductive Dump where
  | leaf (text : String)
  | field (label : String) (value : Dump)
  | record (name : String) (fields : List Dump)
  | tuple (name : String) (items : List Dump)
  | list (items : List Dump)

namespace Dump

/-- A quoted text. -/
def text (s : String) : Dump :=
  leaf (quote s)

/-- A value that may be missing. -/
def optional : Option Dump → Dump
  | none => leaf "None"
  | some d => tuple "Some" [d]

mutual

/-- The dump on one line. -/
def oneLine : Dump → String
  | leaf text => text
  | field label value => label ++ ": " ++ oneLine value
  | record name fields => name ++ " \x7b " ++ oneLineItems fields ++ " \x7d"
  | tuple name items => name ++ "(" ++ oneLineItems items ++ ")"
  | list items => "[" ++ oneLineItems items ++ "]"

/-- Items on one line, with a comma and a space between each two. -/
def oneLineItems : List Dump → String
  | [] => ""
  | [d] => oneLine d
  | d :: ds => oneLine d ++ ", " ++ oneLineItems ds

end

/-- A line break and the indentation of `depth` levels. -/
def breakAt (depth : Nat) : String :=
  String.ofList ('\n' :: List.replicate (4 * depth) ' ')

mutual

/-- The dump with one item a line, where the first line stands `depth` levels deep. -/
def indented (depth : Nat) : Dump → String
  | leaf text => text
  | field label value => label ++ ": " ++ indented depth value
  | record name fields =>
      name ++ " \x7b" ++ indentedItems (depth + 1) fields ++ breakAt depth ++ "\x7d"
  | tuple name items =>
      name ++ "(" ++ indentedItems (depth + 1) items ++ breakAt depth ++ ")"
  | list [] => "[]"
  | list (item :: items) =>
      "[" ++ (breakAt (depth + 1) ++ indented (depth + 1) item ++ ",") ++
        indentedItems (depth + 1) items ++ breakAt depth ++ "]"

/-- Items, each on lines of its own and with a comma behind it. -/
def indentedItems (depth : Nat) : List Dump → String
  | [] => ""
  | d :: ds => breakAt depth ++ indented depth d ++ "," ++ indentedItems depth ds

end

end Dump

/-- The dump of a declared name. -/
def Declarator.dump : Declarator → Dump
  | plain name => .tuple "NoPtr" [.text name]
  | pointer name => .tuple "Ptr" [.text name]

/-- The node name of a literal. -/
def LiteralKind.dumpName : LiteralKind → String
  | int => "IntLit"
  | float => "FloatLit"
  | char => "CharLit"
  | string => "StringLit"
  | bool => "BoolLit"

namespace Expr

mutual

/-- The dump of an expression. -/
def dump : Expr → Dump
  | literal kind text => .tuple kind.dumpName [.text text]
  | ident name => .tuple "Identifier" [.text name]
  | paren inner => .tuple "Paren" [dump inner]
  | binary op lhs rhs =>
      .record "Binary" [.field "op" (.text op), .field "lhs" (dump lhs), .field "rhs" (dump rhs)]
  | prefixOp op arg => .record "Prefix" [.field "op" (.text op), .field "arg" (dump arg)]
  | postIncrement base => .tuple "PostfixIncrement" [dump base]
  | postDecrement base => .tuple "PostfixDecrement" [dump base]
  | call callee args =>
      .record "Call" [.field "callee" (dump callee), .field "args" (.list (dumpEach args))]
  | subscript base index =>
      .record "Subscript" [.field "base" (dump base), .field "index" (dump index)]

/-- The dumps of a list of expressions. -/
def dumpEach : List Expr → List Dump
  | [] => []
  | e :: es => dump e :: dumpEach es

end

end Expr

/-- The dump of a declared name with its initial value. -/
def Binding.dump (b : Binding) : Dump :=
  .record "InitDeclarator"
    [.field "declarator" b.declarator.dump,
     .field "initializer" (.optional (b.initial.map Expr.dump))]

/-- The dump of a list of variables. -/
def VarDecl.dump (d : VarDecl) : Dump :=
  .record "VarDecl"
    [.field "ty" (.text d.typeName), .field "declarators" (.list (d.bindings.map Binding.dump))]

/-- The dump of a parameter. -/
def Param.dump (p : Param) : Dump :=
  .record "ParameterDecl"
    [.field "ty" (.text p.typeName), .field "declarator" p.binding.dump]

/-- The dump of a block, given the dumps of its statements. -/
def blockDump (body : List Dump) : Dump :=
  .record "CompoundStmt" [.field "body" (.list body)]

/-- The dump of a condition with what it guards. -/
def branchDump (test : Expr) (body : Dump) : Dump :=
  .record "Branch" [.field "condition" test.dump, .field "body" body]

mutual

/-- The dump of a statement. -/
def Stmt.dump : Stmt → Dump
  | .block body => .tuple "Compound" [blockDump (Stmt.dumpEach body)]
  | .conditional test body rest =>
      .record "Conditional"
        [.field "if_branch" (branchDump test (Stmt.dump body)),
         .field "elif_branches" (.list (Alternatives.dumpBranches rest)),
         .field "else_branch" (.optional (Alternatives.dumpElse rest))]
  | .whileLoop test body =>
      .record "While" [.field "condition" test.dump, .field "body" (Stmt.dump body)]
  | .repeatLoop body => .tuple "Repeat" [Stmt.dump body]
  | .forLoop => .leaf "For"
  | .breakOut => .leaf "Break"
  | .continueOn => .leaf "Continue"
  | .returnValue value => .tuple "Return" [value.dump]
  | .declare decl => .tuple "Declaration" [decl.dump]
  | .evaluate value => .tuple "Expr" [value.dump]

/-- The dumps of the `elif` branches of a conditional. -/
def Alternatives.dumpBranches : Alternatives → List Dump
  | .nothing | .otherwise _ => []
  | .elseIf test body rest =>
      branchDump test (Stmt.dump body) :: Alternatives.dumpBranches rest

/-- The dump of the `else` statement of a conditional. -/
def Alternatives.dumpElse : Alternatives → Option Dump
  | .nothing => none
  | .otherwise body => some (Stmt.dump body)
  | .elseIf _ _ rest => Alternatives.dumpElse rest

/-- The dumps of a list of statements. -/
def Stmt.dumpEach : List Stmt → List Dump
  | [] => []
  | s :: ss => Stmt.dump s :: Stmt.dumpEach ss

end

/-- The dump of a function. -/
def FuncDecl.dump (d : FuncDecl) : Dump :=
  .record "FuncDecl"
    [.field "ty" (.text d.typeName), .field "declarator" d.declarator.dump,
     .field "params" (.list (d.params.map Param.dump)),
     .field "body" (.optional (d.body.map fun body => blockDump (Stmt.dumpEach body)))]

/-- The dump of a declaration. -/
def Decl.dump : Decl → Dump
  | .func d => .tuple "Func" [d.dump]
  | .var d => .tuple "Var" [d.dump]
  | .param d => .tuple "Parameter" [d.dump]

/-- The dump of a program. -/
def Program.dump (p : Program) : Dump :=
  .record "TranslationUnit" [.field "declarations" (.list (p.decls.map Decl.dump))]

end ProcLang
