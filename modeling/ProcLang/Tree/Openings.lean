import ProcLang.Tree.Basic

/-!
# Where a tree opens its levels

Statements, expressions, operands of prefix operators and right operands of binary ones
open a level each, where their first token stands. Here every tree gets its extent: how
many tokens it takes, and which levels are opened among them, in the order of the tokens.
Extents of parts that follow each other are appended, and a part that opens a level is
nested; so an extent is put together as the tree is.
-/

set_option autoImplicit false

namespace ProcLang

/-- A level that is opened in a tree: its number, the outermost one being the first, and
how many tokens stand before the phrase that opens it. -/
structure Opening where
  level : Nat
  place : Nat
deriving DecidableEq, Repr

/-- A stretch of tokens and the levels opened among them, given how many levels are open
around it and how many tokens stand before it. The openings are in the order of the
tokens, and none lies outside the stretch. -/
structure Extent where
  length : Nat
  openings : Nat → Nat → List Opening
  inside : ∀ depth place, ∀ o ∈ openings depth place, place ≤ o.place ∧ o.place ≤ place + length
  ordered : ∀ depth place, (openings depth place).Pairwise fun o o' => o.place ≤ o'.place

namespace Extent

/-- Two extents are the same if they have the same length and the same openings. -/
theorem eq_of {x y : Extent} (sameLength : x.length = y.length)
    (sameOpenings : ∀ depth place, x.openings depth place = y.openings depth place) : x = y := by
  obtain ⟨n, os, _, _⟩ := x
  obtain ⟨n', os', _, _⟩ := y
  obtain rfl : n = n' := sameLength
  obtain rfl : os = os' := funext fun depth => funext fun place => sameOpenings depth place
  rfl

/-- No tokens. -/
def nothing : Extent where
  length := 0
  openings _ _ := []
  inside _ _ _ mem := absurd mem List.not_mem_nil
  ordered _ _ := List.Pairwise.nil

/-- One token. -/
def token : Extent where
  length := 1
  openings _ _ := []
  inside _ _ _ mem := absurd mem List.not_mem_nil
  ordered _ _ := List.Pairwise.nil

/-- A stretch and another one behind it. -/
def append (x y : Extent) : Extent where
  length := x.length + y.length
  openings depth place := x.openings depth place ++ y.openings depth (place + x.length)
  inside depth place o mem := by
    rcases List.mem_append.1 mem with mem | mem
    · have := x.inside depth place o mem
      omega
    · have := y.inside depth (place + x.length) o mem
      omega
  ordered depth place := by
    rw [List.pairwise_append]
    refine ⟨x.ordered depth place, y.ordered depth (place + x.length), ?_⟩
    intro o mem o' mem'
    have := x.inside depth place o mem
    have := y.inside depth (place + x.length) o' mem'
    omega

instance : Append Extent := ⟨append⟩

/-- A stretch that opens a level, in which it stands. -/
def nest (x : Extent) : Extent where
  length := x.length
  openings depth place := ⟨depth + 1, place⟩ :: x.openings (depth + 1) place
  inside depth place o mem := by
    rcases List.mem_cons.1 mem with rfl | mem
    · exact ⟨Nat.le_refl _, Nat.le_add_right _ _⟩
    · exact x.inside (depth + 1) place o mem
  ordered depth place := by
    rw [List.pairwise_cons]
    exact ⟨fun o mem => (x.inside (depth + 1) place o mem).1, x.ordered (depth + 1) place⟩

@[simp] theorem append_length (x y : Extent) : (x ++ y).length = x.length + y.length := rfl

@[simp] theorem append_openings (x y : Extent) (depth place : Nat) :
    (x ++ y).openings depth place =
      x.openings depth place ++ y.openings depth (place + x.length) := rfl

@[simp] theorem nothing_append (x : Extent) : nothing ++ x = x :=
  eq_of (Nat.zero_add _) fun _ _ => rfl

@[simp] theorem append_nothing (x : Extent) : x ++ nothing = x :=
  eq_of rfl fun _ _ => List.append_nil _

@[simp] theorem append_assoc (x y z : Extent) : x ++ y ++ z = x ++ (y ++ z) := by
  apply eq_of (Nat.add_assoc _ _ _)
  intro depth place
  simp [Nat.add_assoc]

/-- Stretches one behind the other. -/
def concat (xs : List Extent) : Extent :=
  xs.foldr (· ++ ·) nothing

@[simp] theorem concat_nil : concat [] = nothing := rfl

@[simp] theorem concat_cons (x : Extent) (xs : List Extent) : concat (x :: xs) = x ++ concat xs :=
  rfl

@[simp] theorem concat_append (xs ys : List Extent) : concat (xs ++ ys) = concat xs ++ concat ys := by
  induction xs with
  | nil => simp
  | cons x xs ih => simp [ih]

/-- Stretches with a comma between each two. -/
def commaSeparated : List Extent → Extent
  | [] => nothing
  | [x] => x
  | x :: y :: xs => x ++ token ++ commaSeparated (y :: xs)

/-- Behind every item of a list stands a comma or the closing mark. -/
theorem commaSeparated_append_token {xs : List Extent} (nonempty : xs ≠ []) :
    commaSeparated xs ++ token = concat (xs.map (· ++ token)) := by
  induction xs with
  | nil => exact absurd rfl nonempty
  | cons x xs ih =>
      cases xs with
      | nil => simp [commaSeparated]
      | cons y ys =>
          have others := ih (List.cons_ne_nil y ys)
          simp only [commaSeparated, append_assoc, others, List.map_cons, concat_cons]

/-- A stretch between two marks. -/
def between (x : Extent) : Extent :=
  token ++ x ++ token

end Extent

open Extent

/-! ## Expressions -/

namespace Expr

mutual

/-- The extent of an expression, apart from the level that it stands in. -/
def extent : Expr → Extent
  | literal _ _ | ident _ => token
  | paren inner => between (nest (extent inner))
  | binary _ lhs rhs => extent lhs ++ token ++ nest (extent rhs)
  | prefixOp _ arg => token ++ nest (extent arg)
  | postIncrement base => extent base ++ token
  | postDecrement base => extent base ++ token
  | call callee args => extent callee ++ between (commaSeparated (extentEach args))
  | subscript base index => extent base ++ between (nest (extent index))

/-- The extents of a list of expressions, each with a level of its own. -/
def extentEach : List Expr → List Extent
  | [] => []
  | e :: es => nest (extent e) :: extentEach es

end

theorem extentEach_eq_map (es : List Expr) : extentEach es = es.map fun e => nest e.extent := by
  induction es with
  | nil => rfl
  | cons e es ih => rw [extentEach, ih, List.map_cons]

end Expr

/-! ## Variables and parameters -/

/-- The extent of a declared name, which may have a pointer mark before it. -/
def Declarator.extent : Declarator → Extent
  | plain _ => token
  | pointer _ => token ++ token

/-- The extent of a declared name with its initial value. -/
def Binding.extent (b : Binding) : Extent :=
  match b.initial with
  | none => b.declarator.extent
  | some e => b.declarator.extent ++ token ++ nest e.extent

/-- The extent of a list of variables, with the type and the semicolon. -/
def VarDecl.extent (d : VarDecl) : Extent :=
  between (commaSeparated (d.bindings.map Binding.extent))

/-- The extent of a parameter. -/
def Param.extent (p : Param) : Extent :=
  token ++ p.binding.extent

/-! ## Statements -/

mutual

/-- The extent of a statement, with the level that it opens. -/
def Stmt.extent : Stmt → Extent
  | .block body => nest (between (concat (Stmt.extentEach body)))
  | .conditional test body rest =>
      nest (token ++ between (nest test.extent) ++ Stmt.extent body ++ Alternatives.extent rest)
  | .whileLoop test body => nest (token ++ between (nest test.extent) ++ Stmt.extent body)
  | .repeatLoop body => nest (token ++ Stmt.extent body)
  | .forLoop => nest token
  | .breakOut => nest (token ++ token)
  | .continueOn => nest (token ++ token)
  | .returnValue value => nest (between (nest value.extent))
  | .declare decl => nest decl.extent
  | .evaluate value => nest (nest value.extent ++ token)

/-- The extent of what follows the first branch of a conditional. -/
def Alternatives.extent : Alternatives → Extent
  | .nothing => Extent.nothing
  | .otherwise body => token ++ Stmt.extent body
  | .elseIf test body rest =>
      token ++ between (nest test.extent) ++ Stmt.extent body ++ Alternatives.extent rest

/-- The extents of a list of statements. -/
def Stmt.extentEach : List Stmt → List Extent
  | [] => []
  | s :: ss => Stmt.extent s :: Stmt.extentEach ss

end

theorem Stmt.extentEach_eq_map (ss : List Stmt) : Stmt.extentEach ss = ss.map Stmt.extent := by
  induction ss with
  | nil => rfl
  | cons s ss ih => rw [Stmt.extentEach, ih, List.map_cons]

/-! ## Declarations and programs -/

/-- The extent of a function. Neither its head nor the braces of its body open a level. -/
def FuncDecl.extent (d : FuncDecl) : Extent :=
  token ++ d.declarator.extent ++ between (commaSeparated (d.params.map Param.extent)) ++
    match d.body with
    | none => token
    | some body => between (concat (body.map Stmt.extent))

/-- The extent of a declaration. -/
def Decl.extent : Decl → Extent
  | .func d => d.extent
  | .var d => d.extent
  | .param d => d.extent

/-- The extent of a program. -/
def Program.extent (p : Program) : Extent :=
  concat (p.decls.map Decl.extent)

/-- The levels that a program opens, in the order of its tokens. -/
def Program.openings (p : Program) : List Opening :=
  p.extent.openings 0 0

end ProcLang
