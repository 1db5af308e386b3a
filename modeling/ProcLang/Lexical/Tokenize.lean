import ProcLang.Lexical.Piece
import ProcLang.Text.Utf8
import ProcLang.Token.Basic

/-!
# Tokens of a source text

The lexemes among the pieces of a text become tokens, each at its byte offset, and
one end marker closes them. The first stray piece is a syntax error.
-/

set_option autoImplicit false

namespace ProcLang

/-- Places a sequence of pieces that begins at byte `offset`. -/
def placePieces (offset : Nat) : List Piece → Except SyntaxError (List Token)
  | [] => .ok [Token.endAt offset]
  | p :: ps =>
      let stop := offset + utf8Length p.text
      match p with
      | .spacing _ => placePieces stop ps
      | .lexeme kind text =>
          (placePieces stop ps).map (⟨⟨kind, String.ofList text⟩, ⟨offset, stop⟩⟩ :: ·)
      | .stray text => .error ⟨String.ofList text, ⟨offset, stop⟩⟩

/-- The tokens of `source`, closed by one end marker, or its first lexical error. -/
def tokenize (source : String) : Except SyntaxError (List Token) :=
  placePieces 0 (pieces source.toList)

end ProcLang
