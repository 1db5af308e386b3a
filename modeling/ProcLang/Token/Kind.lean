/-!
# Token kinds

The lexical categories of the language, the binding strength of the binary
operators, and the kinds that can open a prefix expression. Control in the parser
depends on these kinds only, never on the text of a token.
-/

set_option autoImplicit false

namespace ProcLang

/-- The lexical category of a token. The operator kinds are named for their
spelling: a `star` is a product, a dereference or a pointer mark by its place. -/
inductive TokenKind where
  | intLit
  | floatLit
  | charLit
  | stringLit
  | boolLit
  | ident
  | typeName
  | bang
  | ampersand
  | plusPlus
  | minusMinus
  | plus
  | minus
  | star
  | slash
  | percent
  | caret
  | assign
  | plusAssign
  | minusAssign
  | starAssign
  | slashAssign
  | percentAssign
  | powerAssign
  | orOr
  | andAnd
  | equal
  | notEqual
  | less
  | lessEqual
  | greater
  | greaterEqual
  | lparen
  | rparen
  | lbrace
  | rbrace
  | lbracket
  | rbracket
  | comma
  | semicolon
  | kwIf
  | kwElif
  | kwElse
  | kwWhile
  | kwFor
  | kwRepeat
  | kwReturn
  | kwBreak
  | kwContinue
  | endOfInput
deriving DecidableEq, Repr, Inhabited

namespace TokenKind

/-- Binding strength of a binary operator, a larger number binding tighter, and
`none` for every other kind. The assignments bind loosest of all. -/
def precedence? : TokenKind → Option Nat
  | assign | plusAssign | minusAssign | starAssign | slashAssign | percentAssign
  | powerAssign => some 0
  | orOr => some 1
  | andAnd => some 2
  | equal | notEqual => some 3
  | less | lessEqual | greater | greaterEqual => some 4
  | plus | minus => some 5
  | star | slash | percent => some 6
  | caret => some 7
  | _ => none

/-- Kinds that open a prefix expression. -/
def isPrefixOperator : TokenKind → Bool
  | plus | minus | ampersand | star | bang | plusPlus | minusMinus => true
  | _ => false

end TokenKind

end ProcLang
