import ProcLang.Text.Unicode

/-!
# Quoted text

A text between double quotes on one line. Quotes, backslashes and the common control
characters are written with a backslash, and every other character that would not show
as itself is written by its code point.
-/

set_option autoImplicit false

namespace ProcLang

/-- Characters that are written by their code point: those that extend the character before them
and those that are not printable. -/
def isHidden (c : Char) : Bool :=
  (extenderRanges ++ unprintableRanges).any fun range => range.1 ≤ c.toNat && c.toNat ≤ range.2

/-- The written form of one character. -/
def quoteChar (c : Char) : List Char :=
  if c = '\t' then ['\\', 't']
  else if c = '\n' then ['\\', 'n']
  else if c = '\r' then ['\\', 'r']
  else if c = '\x00' then ['\\', '0']
  else if c = '"' then ['\\', '"']
  else if c = '\\' then ['\\', '\\']
  else if isHidden c then '\\' :: 'u' :: '{' :: Nat.toDigits 16 c.toNat ++ ['}']
  else [c]

/-- A text in double quotes. -/
def quote (s : String) : String :=
  String.ofList ('"' :: s.toList.flatMap quoteChar ++ ['"'])

end ProcLang
