import ProcLang.Parse.Reader
import ProcLang.Tree.Basic

/-!
# The grammar as parsers

There is a parser for every phrase of the language, for any reader of tokens. Each is
built from `inner`, the parsers for the phrases nested one level below it. A level is
opened by a statement, by an expression, by the operand of a prefix operator and by the
right operand of a binary one; left operands and the bases of postfix chains open none.
-/

set_option autoImplicit false

namespace ProcLang

section Leaves

open TokenReader

variable {m : Type → Type} [TokenReader m]

/-- A declared name, with at most one pointer mark. -/
def Declarator.parse : m Declarator := do
  if ← lookingAt [.star, .ident] then
    skip .star
    return .pointer (← expect .ident)
  return .plain (← expect .ident)

/-- A parameter: a type and a declared name. -/
def Param.parse : m Param := do
  let typeName ← expect .typeName
  let d ← Declarator.parse
  return ⟨typeName, ⟨d, none⟩⟩

end Leaves

/-- The parsers that open a nesting level: expressions whose binary operators bind at
least as tightly as a given strength, operands of prefix operators, and statements. -/
structure Nested (m : Type → Type) where
  operand : Nat → m Expr
  unary : m Expr
  stmt : m Stmt

namespace TokenKind

/-- The family of a literal token. -/
def literal? : TokenKind → Option LiteralKind
  | intLit => some .int
  | floatLit => some .float
  | charLit => some .char
  | stringLit => some .string
  | boolLit => some .bool
  | _ => none

end TokenKind

namespace Nested

open TokenReader

variable {m : Type → Type} [TokenReader m] (inner : Nested m)

/-- Any expression, one level below. -/
def expr : m Expr :=
  inner.operand 0

/-! ## Expressions -/

/-- A literal, an identifier or a parenthesized expression. -/
def primary : m Expr :=
  choose TokenKind.literal? (fun family text => return .literal family text) <|
  choose (only .ident) (fun _ name => return .ident name) do
    skip .lparen
    let e ← inner.expr
    skip .rparen
    return .paren e

/-- One more link of a postfix chain behind `base`, or the end of the chain. -/
def postfixRound (base : Expr) : m (Round Expr Expr) := do
  match ← kindAhead with
  | .plusPlus =>
      skip .plusPlus
      return .again (.postIncrement base)
  | .minusMinus =>
      skip .minusMinus
      return .again (.postDecrement base)
  | .lparen =>
      skip .lparen
      let args ← parenList inner.expr
      return .again (.call base args)
  | .lbracket =>
      skip .lbracket
      let index ← inner.expr
      skip .rbracket
      return .again (.subscript base index)
  | _ => return .done base

/-- A primary expression with the longest postfix chain behind it. -/
def postfixChain : m Expr := do
  let base ← inner.primary
  loop inner.postfixRound base

/-- A prefix operator with its operand, or a postfix chain. -/
def unaryExpr : m Expr :=
  choose (fun kind => if kind.isPrefixOperator then some () else none)
    (fun _ op => return .prefixOp op (← inner.unary))
    inner.postfixChain

/-- One more binary operator behind `lhs`, with its right operand, if it binds at least
as tightly as `least`. The right operand takes in operators of the same strength, so
equal operators group to the right. -/
def binaryRound (least : Nat) (lhs : Expr) : m (Round Expr Expr) :=
  choose (fun kind => kind.precedence?.filter (least ≤ ·))
    (fun strength op => return .again (.binary op lhs (← inner.operand strength)))
    (return .done lhs)

/-- An expression whose binary operators bind at least as tightly as `least`. -/
def operatorExpr (least : Nat) : m Expr := do
  let first ← inner.unaryExpr
  loop (inner.binaryRound least) first

/-! ## Declarations -/

/-- A declared name with its initial value, if one is given. -/
def initBinding : m Binding := do
  let d ← Declarator.parse
  if ← eat .assign then return ⟨d, some (← inner.expr)⟩
  return ⟨d, none⟩

/-- Variables of one type, up to and including the semicolon. -/
def varDecl : m VarDecl := do
  let typeName ← expect .typeName
  let bindings ← commaList .semicolon inner.initBinding
  return ⟨typeName, bindings⟩

/-! ## Statements -/

/-- The statements of a block, up to and including the closing brace. -/
def blockBody : m (List Stmt) :=
  listUntil (eat .rbrace) inner.stmt

/-- An expression in parentheses. -/
def condition : m Expr := do
  skip .lparen
  let test ← inner.expr
  skip .rparen
  return test

/-- A condition and the statement that it guards. -/
def branch : m (Expr × Stmt) := do
  let test ← inner.condition
  let body ← inner.stmt
  return (test, body)

/-- The `else` of a conditional, if there is one. -/
def elseClause : m Alternatives := do
  if ← eat .kwElse then return .otherwise (← inner.stmt)
  return .nothing

/-- The `elif` branches of a conditional and its `else`, as far as they reach. -/
def alternatives : m Alternatives := do
  let branches ← listUntil (do return !(← eat .kwElif)) inner.branch
  let last ← inner.elseClause
  return branches.foldr (fun b rest => .elseIf b.1 b.2 rest) last

/-- A statement, chosen by its first token. Declarations inside a function are
variables only, and `for` is refused. -/
def statement : m Stmt := do
  match ← kindAhead with
  | .lbrace =>
      skip .lbrace
      return .block (← inner.blockBody)
  | .kwIf =>
      skip .kwIf
      let (test, body) ← inner.branch
      return .conditional test body (← inner.alternatives)
  | .kwWhile =>
      skip .kwWhile
      let (test, body) ← inner.branch
      return .whileLoop test body
  | .kwRepeat =>
      skip .kwRepeat
      return .repeatLoop (← inner.stmt)
  | .kwFor => refuse
  | .kwBreak =>
      skip .kwBreak
      skip .semicolon
      return .breakOut
  | .kwContinue =>
      skip .kwContinue
      skip .semicolon
      return .continueOn
  | .kwReturn =>
      skip .kwReturn
      let value ← inner.expr
      skip .semicolon
      return .returnValue value
  | .typeName => return .declare (← inner.varDecl)
  | _ =>
      let value ← inner.expr
      skip .semicolon
      return .evaluate value

/-! ## Programs -/

/-- A function: its head, and then a block or, for a prototype, a semicolon. The
statements of its block are nested one level, the block itself is not. -/
def funcDecl : m FuncDecl := do
  let typeName ← expect .typeName
  let d ← Declarator.parse
  skip .lparen
  let params ← parenList Param.parse
  if ← eat .lbrace then return ⟨typeName, d, params, some (← inner.blockBody)⟩
  skip .semicolon
  return ⟨typeName, d, params, none⟩

/-- A top-level declaration. Up to four tokens ahead decide whether it is a function or
a list of variables; if it can be neither, its first token is refused. -/
def declaration : m Decl := do
  noteDeclaration
  if (← lookingAt [.typeName, .ident, .lparen])
      || (← lookingAt [.typeName, .star, .ident, .lparen]) then
    return .func (← inner.funcDecl)
  if (← lookingAt [.typeName, .ident]) || (← lookingAt [.typeName, .star, .ident]) then
    return .var (← inner.varDecl)
  refuse

/-- Declarations up to the end of the input. -/
def program : m Program := do
  let decls ← listUntil (do return (← kindAhead) == .endOfInput) inner.declaration
  return ⟨decls⟩

end Nested

end ProcLang
