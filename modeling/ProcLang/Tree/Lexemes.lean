import ProcLang.Lexical.Alphabet
import ProcLang.Token.Basic
import ProcLang.Tree.Basic

/-!
# The token sequence of a tree

The lexemes of a tree in source order. No parentheses are added: a tree holds every
token of the text it was read from, and this is the list of them.
-/

set_option autoImplicit false

namespace ProcLang

/-- The kind of a literal of each family. -/
def LiteralKind.tokenKind : LiteralKind → TokenKind
  | int => .intLit
  | float => .floatLit
  | char => .charLit
  | string => .stringLit
  | bool => .boolLit

/-- The kind that an operator text spells; a text that is no operator has no kind of
its own. -/
def operatorKind (text : String) : TokenKind :=
  (operators.lookup text).getD .endOfInput

namespace Lexeme

/-- The lexeme of an operator. -/
def operator (text : String) : Lexeme :=
  ⟨operatorKind text, text⟩

/-- Parts with a comma between each two. -/
def commaSeparated (parts : List (List Lexeme)) : List Lexeme :=
  [⟨.comma, ","⟩].intercalate parts

/-- Lexemes between parentheses. -/
def inParens (ls : List Lexeme) : List Lexeme :=
  ⟨.lparen, "("⟩ :: ls ++ [⟨.rparen, ")"⟩]

/-- Lexemes between braces. -/
def inBraces (ls : List Lexeme) : List Lexeme :=
  ⟨.lbrace, "\x7b"⟩ :: ls ++ [⟨.rbrace, "\x7d"⟩]

end Lexeme

open Lexeme

namespace Expr

mutual

/-- The lexemes of an expression. -/
def lexemes : Expr → List Lexeme
  | literal kind text => [⟨kind.tokenKind, text⟩]
  | ident name => [⟨.ident, name⟩]
  | paren inner => inParens (lexemes inner)
  | binary op lhs rhs => lexemes lhs ++ operator op :: lexemes rhs
  | prefixOp op arg => operator op :: lexemes arg
  | postIncrement base => lexemes base ++ [⟨.plusPlus, "++"⟩]
  | postDecrement base => lexemes base ++ [⟨.minusMinus, "--"⟩]
  | call callee args => lexemes callee ++ inParens (commaSeparated (lexemesEach args))
  | subscript base index =>
      lexemes base ++ ⟨.lbracket, "["⟩ :: lexemes index ++ [⟨.rbracket, "]"⟩]

/-- The lexemes of a list of expressions, one by one. -/
def lexemesEach : List Expr → List (List Lexeme)
  | [] => []
  | e :: es => lexemes e :: lexemesEach es

end

theorem lexemesEach_eq_map (es : List Expr) : lexemesEach es = es.map lexemes := by
  induction es with
  | nil => rfl
  | cons e es ih => rw [lexemesEach, ih, List.map_cons]

end Expr

/-- The lexemes of a declared name. -/
def Declarator.lexemes : Declarator → List Lexeme
  | plain name => [⟨.ident, name⟩]
  | pointer name => [⟨.star, "*"⟩, ⟨.ident, name⟩]

/-- The lexemes of a declared name with its initial value. -/
def Binding.lexemes (b : Binding) : List Lexeme :=
  match b.initial with
  | none => b.declarator.lexemes
  | some e => b.declarator.lexemes ++ ⟨.assign, "="⟩ :: e.lexemes

/-- The lexemes of a list of variables, with the semicolon. -/
def VarDecl.lexemes (d : VarDecl) : List Lexeme :=
  ⟨.typeName, d.typeName⟩ :: commaSeparated (d.bindings.map Binding.lexemes) ++
    [⟨.semicolon, ";"⟩]

/-- The lexemes of a parameter. -/
def Param.lexemes (p : Param) : List Lexeme :=
  ⟨.typeName, p.typeName⟩ :: p.binding.lexemes

mutual

/-- The lexemes of a statement. -/
def Stmt.lexemes : Stmt → List Lexeme
  | .block body => inBraces (Stmt.lexemesAll body)
  | .conditional test body rest =>
      ⟨.kwIf, "if"⟩ :: inParens test.lexemes ++ Stmt.lexemes body ++ Alternatives.lexemes rest
  | .whileLoop test body =>
      ⟨.kwWhile, "while"⟩ :: inParens test.lexemes ++ Stmt.lexemes body
  | .repeatLoop body => ⟨.kwRepeat, "repeat"⟩ :: Stmt.lexemes body
  | .forLoop => [⟨.kwFor, "for"⟩]
  | .breakOut => [⟨.kwBreak, "break"⟩, ⟨.semicolon, ";"⟩]
  | .continueOn => [⟨.kwContinue, "continue"⟩, ⟨.semicolon, ";"⟩]
  | .returnValue value => ⟨.kwReturn, "return"⟩ :: value.lexemes ++ [⟨.semicolon, ";"⟩]
  | .declare decl => decl.lexemes
  | .evaluate value => value.lexemes ++ [⟨.semicolon, ";"⟩]

/-- The lexemes of what follows the first branch of a conditional. -/
def Alternatives.lexemes : Alternatives → List Lexeme
  | .nothing => []
  | .otherwise body => ⟨.kwElse, "else"⟩ :: Stmt.lexemes body
  | .elseIf test body rest =>
      ⟨.kwElif, "elif"⟩ :: inParens test.lexemes ++ Stmt.lexemes body ++
        Alternatives.lexemes rest

/-- The lexemes of statements one after another. -/
def Stmt.lexemesAll : List Stmt → List Lexeme
  | [] => []
  | s :: ss => Stmt.lexemes s ++ Stmt.lexemesAll ss

end

theorem Stmt.lexemesAll_eq_flatMap (ss : List Stmt) :
    Stmt.lexemesAll ss = ss.flatMap Stmt.lexemes := by
  induction ss with
  | nil => rfl
  | cons s ss ih => rw [Stmt.lexemesAll, ih, List.flatMap_cons]

theorem Stmt.lexemes_braces (body : List Stmt) :
    (Stmt.block body).lexemes = inBraces (body.flatMap Stmt.lexemes) := by
  rw [Stmt.lexemes, Stmt.lexemesAll_eq_flatMap]

/-- The lexemes of a function. -/
def FuncDecl.lexemes (d : FuncDecl) : List Lexeme :=
  ⟨.typeName, d.typeName⟩ :: d.declarator.lexemes ++
    inParens (commaSeparated (d.params.map Param.lexemes)) ++
      match d.body with
      | none => [⟨.semicolon, ";"⟩]
      | some body => inBraces (Stmt.lexemesAll body)

/-- The lexemes of a declaration. -/
def Decl.lexemes : Decl → List Lexeme
  | .func d => d.lexemes
  | .var d => d.lexemes
  | .param d => d.lexemes

/-- The lexemes of a program. -/
def Program.lexemes (p : Program) : List Lexeme :=
  p.decls.flatMap Decl.lexemes

end ProcLang
