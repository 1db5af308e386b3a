import ProcLang.Parse.Program

/-!
# Parsing sessions

A session reads phrases of the caller's choice one after another from the same stream.
Each request goes on where the one before it stopped, whether that one succeeded or
failed, and each has the whole nesting limit to itself.
-/

set_option autoImplicit false

namespace ProcLang

/-- The phrase that a session is asked for. -/
inductive Request where
  | program
  | decl
  | stmt
  | expr
deriving DecidableEq, Repr

/-- The tree that answers a request. -/
inductive Phrase where
  | program (tree : Program)
  | decl (tree : Decl)
  | stmt (tree : Stmt)
  | expr (tree : Expr)

namespace Reading

/-- Applies `f` to the tree of a reading. -/
def map {α β : Type} (f : α → β) (r : Reading α) : Reading β :=
  ⟨r.result.map f, r.left, r.steps⟩

end Reading

/-- Reads the requested phrase. -/
def TokenStream.answer (stream : TokenStream) : Request → Reading Phrase
  | .program => stream.readProgram.map .program
  | .decl => stream.readDecl.map .decl
  | .stmt => stream.readStmt.map .stmt
  | .expr => stream.readExpr.map .expr

/-- Answers a sequence of requests, each from the stream that the one before it left. -/
def TokenStream.session (stream : TokenStream) :
    List Request → List (Except SyntaxError Phrase)
  | [] => []
  | request :: requests =>
      let reading := stream.answer request
      reading.result :: reading.left.session requests

end ProcLang
