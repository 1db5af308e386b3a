import ProcLang.Token.Kind

/-!
# Tokens, token streams and syntax errors

A lexeme is a kind with the text it was read from; a token is a lexeme at a place
in the source. A stream is what a parser still has before it: the tokens ahead and
the end marker that closes them. A syntax error carries the text and the place of
the token at which reading stopped.
-/

set_option autoImplicit false

namespace ProcLang

/-- A half-open range of UTF-8 byte offsets in the source. -/
structure Span where
  start : Nat
  stop : Nat
deriving DecidableEq, Repr, Inhabited

/-- A kind together with the source text of the token. -/
structure Lexeme where
  kind : TokenKind
  text : String
deriving DecidableEq, Repr, Inhabited

/-- A lexeme at a place in the source. -/
structure Token extends Lexeme where
  span : Span
deriving DecidableEq, Repr, Inhabited

namespace Token

/-- The end marker at byte offset `n`; its text is empty. -/
def endAt (n : Nat) : Token :=
  ⟨⟨.endOfInput, ""⟩, ⟨n, n⟩⟩

end Token

/-- The text and the place at which reading stopped. An empty text stands for the
end of the input. -/
structure SyntaxError where
  text : String
  span : Span
deriving DecidableEq, Repr

namespace SyntaxError

/-- The one-line description of a syntax error. -/
def message (e : SyntaxError) : String :=
  if e.text = "" then "unexpected end of input" else "unexpected token `" ++ e.text ++ "`"

end SyntaxError

/-- The tokens ahead of a parser, none of them an end marker, and the end marker
that closes them. -/
structure TokenStream where
  ahead : List Token
  finish : Token
deriving DecidableEq, Repr

namespace TokenStream

/-- The stream of a token list: everything before its first end marker. A list
without one is closed where its last token stops, and at `fallback` if it is empty. -/
def ofTokensFrom (fallback : Nat) : List Token → TokenStream
  | [] => ⟨[], Token.endAt fallback⟩
  | t :: ts =>
      if t.kind = .endOfInput then ⟨[], t⟩
      else
        let s := ofTokensFrom t.span.stop ts
        ⟨t :: s.ahead, s.finish⟩

/-- The stream of a token list; an empty list is closed at offset zero. -/
def ofTokens (ts : List Token) : TokenStream :=
  ofTokensFrom 0 ts

/-- The token under the reading head: the next one ahead or the end marker. -/
def current (s : TokenStream) : Token :=
  s.ahead.headD s.finish

/-- The error of a parser that refuses the current token. -/
def unexpected (s : TokenStream) : SyntaxError :=
  ⟨s.current.text, s.current.span⟩

end TokenStream

end ProcLang
