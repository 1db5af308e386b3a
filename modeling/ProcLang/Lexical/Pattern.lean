import ProcLang.Lexical.Alphabet

/-!
# The texts of each kind

For every kind of token the set of texts that spell it, the two forms of spacing, and what
may stand between two tokens, stated without reference to how a source is scanned.
-/

set_option autoImplicit false

namespace ProcLang

/-- One digit or more. -/
def IsDigits (cs : List Char) : Prop :=
  cs ≠ [] ∧ ∀ c ∈ cs, c.isDigit = true

/-- One unit between two `quote` marks: a plain character, or a backslash and any
character but a line feed. -/
inductive QuotedUnit (quote : Char) : List Char → Prop where
  | plain (c : Char) : isPlain quote c = true → QuotedUnit quote [c]
  | escaped (c : Char) : c ≠ '\n' → QuotedUnit quote ['\\', c]

/-- A letter or an underscore, and then letters, digits and underscores. -/
def IsWord : List Char → Prop
  | [] => False
  | c :: cs => isWordStart c = true ∧ ∀ d ∈ cs, isWordChar d = true

/-- The texts of a kind. The end marker has none. -/
def TokenKind.Spells (kind : TokenKind) (cs : List Char) : Prop :=
  match kind with
  | .intLit => IsDigits cs
  | .floatLit =>
      ∃ whole fraction, IsDigits whole ∧ IsDigits fraction ∧ cs = whole ++ '.' :: fraction
  | .charLit => ∃ unit, QuotedUnit '\'' unit ∧ cs = '\'' :: unit ++ ['\'']
  | .stringLit =>
      ∃ units : List (List Char),
        (∀ u ∈ units, QuotedUnit '"' u) ∧ cs = '"' :: units.flatten ++ ['"']
  | .ident => IsWord cs ∧ String.ofList cs ∉ reservedWords.map Prod.fst
  | other => (String.ofList cs, other) ∈ operators ++ reservedWords

/-- One blank or more, or a line comment, which does not contain its line feed. -/
def IsSpacing (cs : List Char) : Prop :=
  (cs ≠ [] ∧ ∀ c ∈ cs, isBlank c = true) ∨
    ∃ comment, '\n' ∉ comment ∧ cs = '/' :: '/' :: comment

/-- The texts that the pattern of a kind matches. The pattern of identifiers matches the
reserved words, too. -/
def TokenKind.Matches (kind : TokenKind) (cs : List Char) : Prop :=
  match kind with
  | .ident => IsWord cs
  | other => other.Spells cs

/-- A text that some pattern matches, of a token or of spacing. -/
def IsMatch (cs : List Char) : Prop :=
  (∃ kind : TokenKind, kind.Matches cs) ∨ IsSpacing cs

/-- Blanks and line comments before the text `behind`; a comment goes on to a line feed or to
the end. -/
inductive IsGap : List Char → List Char → Prop where
  | nothing (behind : List Char) : IsGap [] behind
  | blank (c : Char) (gap behind : List Char) :
      isBlank c = true → IsGap gap behind → IsGap (c :: gap) behind
  | comment (text gap behind : List Char) :
      '\n' ∉ text → (∀ c ∈ (gap ++ behind).head?, c = '\n') → IsGap gap behind →
        IsGap ('/' :: '/' :: (text ++ gap)) behind

/-- Blanks and line comments, each comment ended by its line feed. -/
inductive IsFilling : List Char → Prop where
  | nothing : IsFilling []
  | blank (c : Char) (cs : List Char) : isBlank c = true → IsFilling cs → IsFilling (c :: cs)
  | comment (text cs : List Char) :
      '\n' ∉ text → IsFilling cs → IsFilling ('/' :: '/' :: (text ++ '\n' :: cs))

/-- A blank, and then blanks and ended comments. It begins with no comment, since the lexeme
before it may be one of the slashes of a comment. -/
def IsSeparator : List Char → Prop
  | [] => False
  | c :: cs => isBlank c = true ∧ IsFilling cs

end ProcLang
