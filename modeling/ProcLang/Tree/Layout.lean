import ProcLang.Tree.Basic

/-!
# Layout of a tree as text

A tree is laid out as a sequence of fragments: words, which are the texts of single
tokens, and the gaps between them. The printed text is the fragments one after
another. Parentheses are printed where the tree holds them and nowhere else, a block
indents its statements by four columns, and everything else stays on its line.
-/

set_option autoImplicit false

namespace ProcLang

/-- A part of the printed text: a word, a space, or a line break with the indentation
of `depth` blocks behind it. -/
inductive Fragment where
  | word (text : String)
  | space
  | newline (depth : Nat)
deriving DecidableEq, Repr

namespace Fragment

/-- The characters of a fragment. -/
def chars : Fragment → List Char
  | word text => text.toList
  | space => [' ']
  | newline depth => '\n' :: List.replicate (4 * depth) ' '

/-- The texts of fragments, one after another. -/
def concat (fs : List Fragment) : String :=
  String.ofList (fs.flatMap chars)

/-- Parts with a comma and a space between each two. -/
def commaSeparated (parts : List (List Fragment)) : List Fragment :=
  [word ",", space].intercalate parts

/-- Braces around the lines of a block that stands `depth` blocks deep. -/
def inBraces (depth : Nat) (lines : List Fragment) : List Fragment :=
  match lines with
  | [] => [word "\x7b", word "\x7d"]
  | _ :: _ => word "\x7b" :: lines ++ [newline depth, word "\x7d"]

end Fragment

open Fragment

namespace Expr

/-- Whether an expression begins with a prefix operator of its own. -/
def isPrefixed : Expr → Bool
  | prefixOp _ _ => true
  | _ => false

mutual

/-- The layout of an expression. A space keeps two prefix operators apart. -/
def layout : Expr → List Fragment
  | literal _ text | ident text => [word text]
  | paren inner => word "(" :: layout inner ++ [word ")"]
  | binary op lhs rhs => layout lhs ++ [space, word op, space] ++ layout rhs
  | prefixOp op arg =>
      word op :: (if arg.isPrefixed then [space] else []) ++ layout arg
  | postIncrement base => layout base ++ [word "++"]
  | postDecrement base => layout base ++ [word "--"]
  | call callee args =>
      layout callee ++ word "(" :: commaSeparated (layoutEach args) ++ [word ")"]
  | subscript base index => layout base ++ word "[" :: layout index ++ [word "]"]

/-- The layouts of a list of expressions, one by one. -/
def layoutEach : List Expr → List (List Fragment)
  | [] => []
  | e :: es => layout e :: layoutEach es

end

theorem layoutEach_eq_map (es : List Expr) : layoutEach es = es.map layout := by
  induction es with
  | nil => rfl
  | cons e es ih => rw [layoutEach, ih, List.map_cons]

end Expr

/-- The layout of a declared name. -/
def Declarator.layout : Declarator → List Fragment
  | plain name => [word name]
  | pointer name => [word "*", word name]

/-- The layout of a declared name with its initial value. -/
def Binding.layout (b : Binding) : List Fragment :=
  match b.initial with
  | none => b.declarator.layout
  | some e => b.declarator.layout ++ [space, word "=", space] ++ e.layout

/-- The layout of a list of variables, with its semicolon. -/
def VarDecl.layout (d : VarDecl) : List Fragment :=
  word d.typeName :: space :: commaSeparated (d.bindings.map Binding.layout) ++ [word ";"]

/-- The layout of a parameter. -/
def Param.layout (p : Param) : List Fragment :=
  word p.typeName :: space :: p.binding.layout

/-- A keyword, a condition in parentheses, and the space before what it guards. -/
def guardLayout (keyword : String) (test : Expr) : List Fragment :=
  word keyword :: space :: word "(" :: test.layout ++ [word ")", space]

mutual

/-- The layout of a statement that begins on a line `depth` blocks deep. -/
def Stmt.layout (depth : Nat) : Stmt → List Fragment
  | .block body => inBraces depth (Stmt.layoutLines (depth + 1) body)
  | .conditional test body rest =>
      guardLayout "if" test ++ Stmt.layout depth body ++ Alternatives.layout depth rest
  | .whileLoop test body => guardLayout "while" test ++ Stmt.layout depth body
  | .repeatLoop body => word "repeat" :: space :: Stmt.layout depth body
  | .forLoop => [word "for"]
  | .breakOut => [word "break", word ";"]
  | .continueOn => [word "continue", word ";"]
  | .returnValue value => word "return" :: space :: value.layout ++ [word ";"]
  | .declare decl => decl.layout
  | .evaluate value => value.layout ++ [word ";"]

/-- The layout of what follows the first branch of a conditional. -/
def Alternatives.layout (depth : Nat) : Alternatives → List Fragment
  | .nothing => []
  | .otherwise body => space :: word "else" :: space :: Stmt.layout depth body
  | .elseIf test body rest =>
      space :: guardLayout "elif" test ++ Stmt.layout depth body ++
        Alternatives.layout depth rest

/-- The layout of statements that each begin on a new line, `depth` blocks deep. -/
def Stmt.layoutLines (depth : Nat) : List Stmt → List Fragment
  | [] => []
  | s :: ss => newline depth :: Stmt.layout depth s ++ Stmt.layoutLines depth ss

end

/-- The layout of a function. -/
def FuncDecl.layout (d : FuncDecl) : List Fragment :=
  word d.typeName :: space :: d.declarator.layout ++
    word "(" :: commaSeparated (d.params.map Param.layout) ++ word ")" ::
      match d.body with
      | none => [word ";"]
      | some body => space :: inBraces 0 (Stmt.layoutLines 1 body)

/-- The layout of a top-level declaration, without the line break that ends it. -/
def Decl.layout : Decl → List Fragment
  | .func d => d.layout
  | .var d => d.layout
  | .param d => d.layout

/-- The layout of a program: each declaration begins a line and ends one. -/
def Program.layout (p : Program) : List Fragment :=
  p.decls.flatMap fun d => d.layout ++ [newline 0]

/-- The text of an expression. -/
def Expr.print (e : Expr) : String :=
  concat e.layout

/-- The text of a declared name. -/
def Declarator.print (d : Declarator) : String :=
  concat d.layout

/-- The text of a declared name with its initial value. -/
def Binding.print (b : Binding) : String :=
  concat b.layout

/-- The text of a program. The text of a program that was read from a source reads back
as the same program. -/
def Program.print (p : Program) : String :=
  concat p.layout

end ProcLang
