import ProcLang.Token.Kind

/-!
# Readers of tokens

A reader looks at the tokens ahead, consumes them one by one and refuses what it does
not expect. The interface `TokenReader` lists what the grammar needs of a reader, and
the parsers common to many phrases are built on it here. The grammar is written once
against the interface: `Parser` runs it on a list of tokens, and `Machine` on a place
in a vector of them.
-/

set_option autoImplicit false

namespace ProcLang

/-- The result of one round of a loop: a new state for the next round, or the value
of the loop. -/
inductive Round (σ α : Type) where
  | again (state : σ)
  | done (value : α)

/-- What the grammar needs of a reader. `refuse` refuses the current token, `advance`
consumes it and gives its text, `kindAhead` is its kind, and `lookingAt` tells whether
the kinds of the tokens ahead begin with a pattern. `noteDeclaration` records that a
top-level declaration begins here. A `loop` runs rounds until one is done; a round that
asks for another has consumed a token, and one that has not is refused. -/
class TokenReader (m : Type → Type) extends Monad m where
  refuse {α : Type} : m α
  noteDeclaration : m Unit
  kindAhead : m TokenKind
  lookingAt (pattern : List TokenKind) : m Bool
  advance : m String
  loop {σ α : Type} (round : σ → m (Round σ α)) (state : σ) : m α

namespace TokenReader

variable {m : Type → Type} [TokenReader m] {α β : Type}

/-- Consumes the current token if its kind is accepted, and goes on with what the kind
was accepted as and with the text; otherwise consumes nothing. -/
def choose (accepts : TokenKind → Option β) (taken : β → String → m α) (otherwise : m α) :
    m α := do
  match accepts (← kindAhead) with
  | some b => taken b (← advance)
  | none => otherwise

/-- Accepts one kind. -/
def only (wanted kind : TokenKind) : Option Unit :=
  if kind = wanted then some () else none

/-- Consumes a token of the wanted kind and gives its text; refuses any other. -/
def expect (wanted : TokenKind) : m String :=
  choose (only wanted) (fun _ text => pure text) refuse

/-- Consumes a token of the wanted kind; refuses any other. -/
def skip (wanted : TokenKind) : m Unit :=
  choose (only wanted) (fun _ _ => pure ()) refuse

/-- Consumes the current token if it is of the wanted kind, and tells whether it was. -/
def eat (wanted : TokenKind) : m Bool :=
  choose (only wanted) (fun _ _ => pure true) (pure false)

/-- Items up to the place where `ended` says that the list is over. -/
def listUntil (ended : m Bool) (item : m α) : m (List α) :=
  loop (fun items => do
    if ← ended then return .done items.reverse
    let x ← item
    return .again (x :: items)) []

/-- One item or more, separated by commas, up to and including the closing mark. -/
def commaList (closing : TokenKind) (item : m α) : m (List α) :=
  loop (fun items => do
    let x ← item
    if ← eat closing then return .done (x :: items).reverse
    skip .comma
    return .again (x :: items)) []

/-- Any number of items, separated by commas, up to and including the closing
parenthesis. -/
def parenList (item : m α) : m (List α) := do
  if ← eat .rparen then return []
  commaList .rparen item

end TokenReader

end ProcLang
