import ProcLang.Token.Kind

/-!
# Alphabet and fixed spellings

Character classes of the language, the operators and punctuation marks with their
spellings, and the reserved words. Words and numbers are ASCII; any character may
stand inside a literal or a comment.
-/

set_option autoImplicit false

namespace ProcLang

/-- Space, tab, line feed, carriage return and form feed separate tokens. -/
def isBlank (c : Char) : Bool :=
  c == ' ' || c == '\t' || c == '\n' || c == '\r' || c == '\x0c'

/-- An ASCII letter or an underscore begins a word. -/
def isWordStart (c : Char) : Bool :=
  c.isAlpha || c == '_'

/-- ASCII letters, digits and underscores continue a word. -/
def isWordChar (c : Char) : Bool :=
  c.isAlphanum || c == '_'

/-- What begins a word continues one, too. -/
theorem isWordChar_of_isWordStart {c : Char} (h : isWordStart c = true) : isWordChar c = true := by
  simp only [isWordStart, isWordChar, Char.isAlphanum, Bool.or_eq_true] at h ⊢
  exact h.imp Or.inl id

/-- Characters that stand for themselves between two `quote` marks. -/
def isPlain (quote c : Char) : Bool :=
  c != quote && c != '\\' && c != '\n'

/-- Operators and punctuation marks with their spellings, longer spellings first,
so that the first one that fits is the longest. -/
def operators : List (String × TokenKind) :=
  [("**=", .powerAssign),
   ("++", .plusPlus), ("--", .minusMinus),
   ("+=", .plusAssign), ("-=", .minusAssign), ("*=", .starAssign), ("/=", .slashAssign),
   ("%=", .percentAssign),
   ("||", .orOr), ("&&", .andAnd),
   ("==", .equal), ("!=", .notEqual), ("<=", .lessEqual), (">=", .greaterEqual),
   ("!", .bang), ("&", .ampersand),
   ("+", .plus), ("-", .minus), ("*", .star), ("/", .slash), ("%", .percent), ("^", .caret),
   ("=", .assign), ("<", .less), (">", .greater),
   ("(", .lparen), (")", .rparen), ("\x7b", .lbrace), ("\x7d", .rbrace), ("[", .lbracket),
   ("]", .rbracket), (",", .comma), (";", .semicolon)]

/-- Words that are not identifiers. -/
def reservedWords : List (String × TokenKind) :=
  [("true", .boolLit), ("false", .boolLit),
   ("int", .typeName), ("float", .typeName), ("char", .typeName), ("bool", .typeName),
   ("string", .typeName), ("void", .typeName),
   ("if", .kwIf), ("elif", .kwElif), ("else", .kwElse), ("while", .kwWhile), ("for", .kwFor),
   ("repeat", .kwRepeat), ("return", .kwReturn), ("break", .kwBreak),
   ("continue", .kwContinue)]

/-- The kind of a whole word: reserved, or an identifier. -/
def wordKind (word : String) : TokenKind :=
  (reservedWords.lookup word).getD .ident

/-- The operator or punctuation mark that a text begins with, the longest if there
are several. -/
def operatorAt? (cs : List Char) : Option (String × TokenKind) :=
  operators.find? fun op => op.1.toList.isPrefixOf cs

end ProcLang
