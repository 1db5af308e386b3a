import ProcLang.Lexical.Alphabet

/-!
# Pieces of a source text

A source text is cut into pieces from left to right: spacing (a run of blanks or a
line comment), lexemes, and stray text that begins nothing. Every piece is the
longest one possible at its place, and the pieces together are the whole text.
-/

set_option autoImplicit false

namespace ProcLang

/-- A stretch of source text. -/
inductive Piece where
  | spacing (text : List Char)
  | lexeme (kind : TokenKind) (text : List Char)
  | stray (text : List Char)
deriving DecidableEq, Repr

namespace Piece

/-- The characters of a piece. -/
def text : Piece → List Char
  | spacing text | lexeme _ text | stray text => text

end Piece

/-- A number at the head of `cs`, which begins with a digit. A point belongs to the
number only if a digit follows it. -/
def numberAt (cs : List Char) : Piece :=
  let whole := cs.takeWhile Char.isDigit
  match cs.dropWhile Char.isDigit with
  | '.' :: rest =>
      let fraction := rest.takeWhile Char.isDigit
      if fraction = [] then .lexeme .intLit whole
      else .lexeme .floatLit (whole ++ '.' :: fraction)
  | _ => .lexeme .intLit whole

/-- A word at the head of `cs`, which begins with a letter or an underscore. -/
def wordAt (cs : List Char) : Piece :=
  let word := cs.takeWhile isWordChar
  .lexeme (wordKind (String.ofList word)) word

/-- The longest run of complete units at the head of a text that stands after a
`quote` mark. A unit is a plain character, or a backslash with any character but a
line feed. -/
def quotedRun (quote : Char) : List Char → List Char
  | [] => []
  | [c] => if isPlain quote c then [c] else []
  | c :: d :: cs =>
      if c = '\\' then
        if d = '\n' then [] else c :: d :: quotedRun quote cs
      else if isPlain quote c then c :: quotedRun quote (d :: cs)
      else []

/-- A string literal, where `cs` follows the opening quote. Without a closing quote
the opening one and the complete units after it are stray. -/
def stringAfter (cs : List Char) : Piece :=
  let body := quotedRun '"' cs
  match cs.drop body.length with
  | '"' :: _ => .lexeme .stringLit ('"' :: body ++ ['"'])
  | _ => .stray ('"' :: body)

/-- A character literal, where `cs` follows the opening quote: one unit and the
closing quote. Otherwise the opening quote alone is stray. -/
def charAfter : List Char → Piece
  | '\\' :: c :: '\'' :: _ =>
      if c = '\n' then .stray ['\''] else .lexeme .charLit ['\'', '\\', c, '\'']
  | c :: '\'' :: _ =>
      if isPlain '\'' c then .lexeme .charLit ['\'', c, '\''] else .stray ['\'']
  | _ => .stray ['\'']

/-- A line comment, an operator or a punctuation mark at the head of `c :: cs`. -/
def markAt (c : Char) (cs : List Char) : Piece :=
  if "//".toList.isPrefixOf (c :: cs) then .spacing ((c :: cs).takeWhile (· ≠ '\n'))
  else
    match operatorAt? (c :: cs) with
    | some (spelling, kind) => .lexeme kind spelling.toList
    | none => .stray [c]

/-- The first piece of the text `c :: cs`, found by its first character. -/
def firstPiece (c : Char) (cs : List Char) : Piece :=
  if isBlank c then .spacing (c :: cs.takeWhile isBlank)
  else if c.isDigit then numberAt (c :: cs)
  else if isWordStart c then wordAt (c :: cs)
  else if c = '"' then stringAfter cs
  else if c = '\'' then charAfter cs
  else markAt c cs

/-- All pieces of a text in order. A piece holds at least the character it was found
by, so what follows it is shorter. -/
def pieces : List Char → List Piece
  | [] => []
  | c :: cs =>
      let p := firstPiece c cs
      p :: pieces (cs.drop (p.text.length - 1))
termination_by cs => cs.length

end ProcLang
