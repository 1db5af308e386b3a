import ProcLang.Text.Utf8
import ProcLang.Tree.Layout

/-!
# Printing into a writer

A printer goes through a tree and offers its text to a writer, one small text after
another. The writer may refuse one, and the printing ends there: nothing is offered
behind a refused text. The printer counts the blocks that are open, and indents each
line by four columns for each of them.

A bounded writer has room for a number of bytes and keeps the part of a refused text
that still fits.
-/

set_option autoImplicit false

namespace ProcLang

/-- A writer: from its state and a text, the next state and whether the whole text was
taken. -/
def Writer (σ : Type) : Type :=
  σ → String → σ × Bool

/-- Takes every text, and keeps them all as one. -/
def textWriter : Writer String := fun written text =>
  (written ++ text, true)

/-- What a bounded writer holds, and the bytes it still has room for. -/
structure BoundedText where
  written : String
  room : Nat
deriving DecidableEq, Repr

/-- Takes whole characters as long as they fit. -/
def boundedWriter : Writer BoundedText := fun state text =>
  let taken := takeFitting state.room text.toList
  (⟨state.written ++ String.ofList taken, state.room - utf8Length taken⟩,
    taken == text.toList)

/-! ## Printers -/

/-- Where a printer stands: the state of its writer, and how many blocks are open. -/
structure Page (σ : Type) where
  target : σ
  depth : Nat

/-- A printer on a writer gives a value, or none once a text is refused. -/
def Printer (σ α : Type) : Type :=
  Writer σ → Page σ → Option α × Page σ

namespace Printer

variable {σ α β : Type}

/-- Success without writing. -/
def accept (a : α) : Printer σ α := fun _ page =>
  (some a, page)

/-- One printer and then another; a refused text ends the whole. -/
def andThen (p : Printer σ α) (f : α → Printer σ β) : Printer σ β := fun writer page =>
  match p writer page with
  | (some a, next) => f a writer next
  | (none, next) => (none, next)

instance : Monad (Printer σ) where
  pure := accept
  bind := andThen

/-- Offers a text to the writer. -/
def offer (text : String) : Printer σ Unit := fun writer page =>
  match writer page.target text with
  | (next, true) => (some (), ⟨next, page.depth⟩)
  | (next, false) => (none, ⟨next, page.depth⟩)

/-- How many blocks are open. -/
def depth : Printer σ Nat := fun _ page =>
  (some page.depth, page)

/-- Opens a block. -/
def openBlock : Printer σ Unit := fun _ page =>
  (some (), ⟨page.target, page.depth + 1⟩)

/-- Closes the innermost open block. -/
def closeBlock : Printer σ Unit := fun _ page =>
  (some (), ⟨page.target, page.depth - 1⟩)

/-- Writes a text `n` times. -/
def repeatedly (text : String) : Nat → Printer σ Unit
  | 0 => return
  | n + 1 => do
      offer text
      repeatedly text n

/-- Indents a line, by four columns for each open block. -/
def indent : Printer σ Unit := do
  repeatedly "    " (← depth)

/-- The parts of a list, with a comma and a space before each but the first. -/
def commaSeparated (first : Bool) : List (Printer σ Unit) → Printer σ Unit
  | [] => return
  | part :: parts => do
      if !first then offer ", "
      part
      commaSeparated false parts

/-- Braces around the lines of a block, which has none if it is empty. -/
def inBraces (empty : Bool) (lines : Printer σ Unit) : Printer σ Unit := do
  if empty then offer "\x7b\x7d"
  else
    offer "\x7b\n"
    openBlock
    lines
    closeBlock
    indent
    offer "\x7d"

end Printer

open Printer

variable {σ : Type}

mutual

/-- Writes an expression. A space keeps two prefix operators apart. -/
def Expr.write : Expr → Printer σ Unit
  | .literal _ text | .ident text => offer text
  | .paren inner => do
      offer "("
      inner.write
      offer ")"
  | .binary op lhs rhs => do
      lhs.write
      offer " "
      offer op
      offer " "
      rhs.write
  | .prefixOp op arg => do
      offer op
      if arg.isPrefixed then offer " "
      arg.write
  | .postIncrement base => do
      base.write
      offer "++"
  | .postDecrement base => do
      base.write
      offer "--"
  | .call callee args => do
      callee.write
      offer "("
      commaSeparated true (Expr.writeEach args)
      offer ")"
  | .subscript base index => do
      base.write
      offer "["
      index.write
      offer "]"

/-- The printers of a list of expressions, one by one. -/
def Expr.writeEach : List Expr → List (Printer σ Unit)
  | [] => []
  | e :: es => e.write :: Expr.writeEach es

end

/-- Writes a declared name. -/
def Declarator.write : Declarator → Printer σ Unit
  | .plain name => offer name
  | .pointer name => do
      offer "*"
      offer name

/-- Writes a declared name with its initial value. -/
def Binding.write (b : Binding) : Printer σ Unit := do
  b.declarator.write
  match b.initial with
  | none => return
  | some e =>
      offer " = "
      e.write

/-- Writes a list of variables, with its semicolon. -/
def VarDecl.write (d : VarDecl) : Printer σ Unit := do
  offer d.typeName
  offer " "
  commaSeparated true (d.bindings.map Binding.write)
  offer ";"

/-- Writes a parameter. -/
def Param.write (p : Param) : Printer σ Unit := do
  offer p.typeName
  offer " "
  p.binding.write

/-- Writes a keyword, a condition in parentheses, and the space before what it guards. -/
def writeGuard (keyword : String) (test : Expr) : Printer σ Unit := do
  offer keyword
  offer " ("
  test.write
  offer ") "

mutual

/-- Writes a statement, without the indentation before it and the line break behind it. -/
def Stmt.write : Stmt → Printer σ Unit
  | .block body => inBraces body.isEmpty (Stmt.writeLines body)
  | .conditional test body rest => do
      writeGuard "if" test
      body.write
      rest.write
  | .whileLoop test body => do
      offer "while ("
      test.write
      offer ") "
      body.write
  | .repeatLoop body => do
      offer "repeat "
      body.write
  | .forLoop => offer "for"
  | .breakOut => offer "break;"
  | .continueOn => offer "continue;"
  | .returnValue value => do
      offer "return "
      value.write
      offer ";"
  | .declare decl => decl.write
  | .evaluate value => do
      value.write
      offer ";"

/-- Writes what follows the first branch of a conditional. -/
def Alternatives.write : Alternatives → Printer σ Unit
  | .nothing => return
  | .otherwise body => do
      offer " else "
      body.write
  | .elseIf test body rest => do
      offer " "
      writeGuard "elif" test
      body.write
      rest.write

/-- Writes statements, each on a line of its own. -/
def Stmt.writeLines : List Stmt → Printer σ Unit
  | [] => return
  | s :: ss => do
      indent
      s.write
      offer "\n"
      Stmt.writeLines ss

end

/-- Writes a function. -/
def FuncDecl.write (d : FuncDecl) : Printer σ Unit := do
  offer d.typeName
  offer " "
  d.declarator.write
  offer "("
  commaSeparated true (d.params.map Param.write)
  offer ")"
  match d.body with
  | some body =>
      offer " "
      inBraces body.isEmpty (Stmt.writeLines body)
  | none => offer ";"

/-- Writes a top-level declaration, without the line break that ends it. -/
def Decl.write : Decl → Printer σ Unit
  | .func d => d.write
  | .var d => d.write
  | .param d => d.write

/-- Writes declarations, each with a line break behind it. -/
def Decl.writeEach : List Decl → Printer σ Unit
  | [] => return
  | d :: ds => do
      d.write
      offer "\n"
      Decl.writeEach ds

/-- Prints a program into a writer: the state of the writer at the end, and whether it
took the whole text. -/
def Program.writeTo (p : Program) (writer : Writer σ) (state : σ) : σ × Bool :=
  let (finished, page) := Decl.writeEach p.decls writer ⟨state, 0⟩
  (page.target, finished.isSome)

/-- Prints a program into `capacity` bytes: the text that fits, and whether it is all. -/
def Program.printBounded (p : Program) (capacity : Nat) : String × Bool :=
  let (state, complete) := p.writeTo boundedWriter ⟨"", capacity⟩
  (state.written, complete)

end ProcLang
