import ProcLang.Tree.Visitor

/-!
# Node counts

How many functions, prototypes, variables, statements and calls a program holds,
counted by one walk.
-/

set_option autoImplicit false

namespace ProcLang

/-- Node counts of a program. Variables are counted one for each declared name, global
and local ones together, parameters apart. -/
structure Tally where
  functions : Nat
  prototypes : Nat
  vars : Nat
  statements : Nat
  calls : Nat
deriving DecidableEq, Repr

namespace Tally

/-- The counts of an empty program. -/
def zero : Tally :=
  ⟨0, 0, 0, 0, 0⟩

/-- Counts a declaration. -/
def addDecl (t : Tally) : Decl → Tally
  | .func ⟨_, _, _, some _⟩ => { t with functions := t.functions + 1 }
  | .func ⟨_, _, _, none⟩ => { t with prototypes := t.prototypes + 1 }
  | .var d => { t with vars := t.vars + d.bindings.length }
  | .param _ => t

/-- Counts a statement and the variables that it declares. -/
def addStmt (t : Tally) : Stmt → Tally
  | .declare d =>
      { t with statements := t.statements + 1, vars := t.vars + d.bindings.length }
  | _ => { t with statements := t.statements + 1 }

/-- Counts an expression if it is a call. -/
def addExpr (t : Tally) : Expr → Tally
  | .call _ _ => { t with calls := t.calls + 1 }
  | _ => t

/-- The visitor that counts every node. -/
def counter : Visitor Tally where
  onDecl d t := (t.addDecl d, true)
  onStmt s t := (t.addStmt s, true)
  onExpr e t := (t.addExpr e, true)

/-- The five counts, one a line. -/
def report (t : Tally) : String :=
  "functions:  " ++ Nat.repr t.functions ++ "\n" ++
  "prototypes: " ++ Nat.repr t.prototypes ++ "\n" ++
  "variables:  " ++ Nat.repr t.vars ++ "\n" ++
  "statements: " ++ Nat.repr t.statements ++ "\n" ++
  "calls:      " ++ Nat.repr t.calls

end Tally

/-- The node counts of a program. -/
def Program.tally (p : Program) : Tally :=
  Tally.counter.visitProgram p Tally.zero

end ProcLang
