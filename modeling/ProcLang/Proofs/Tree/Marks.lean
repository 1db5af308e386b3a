import Mathlib
import ProcLang.Proofs.Parse.Lists
import ProcLang.Tree.Nodes

/-!
# Every token belongs to one node

The marks of a node are the kinds of those of its tokens that stand in none of its
children: keywords, brackets, names, operators, commas. The tokens of a tree are the marks
of its nodes (`Program.countIn_lexemes`), so the tokens of a kind are counted by counting nodes.
-/

set_option autoImplicit false

namespace ProcLang

/-- The commas between `n` items. -/
def commas (n : Nat) : List TokenKind :=
  List.replicate (n - 1) .comma

/-- The marks of an expression. -/
def Expr.marks : Expr → List TokenKind
  | literal kind _ => [kind.tokenKind]
  | ident _ => [.ident]
  | paren _ => [.lparen, .rparen]
  | binary op _ _ | prefixOp op _ => [operatorKind op]
  | postIncrement _ => [.plusPlus]
  | postDecrement _ => [.minusMinus]
  | call _ args => .lparen :: .rparen :: commas args.length
  | subscript _ _ => [.lbracket, .rbracket]

/-- The marks of a declared name. -/
def Declarator.marks : Declarator → List TokenKind
  | plain _ => [.ident]
  | pointer _ => [.star, .ident]

/-- The marks of a declared name with its initial value. -/
def Binding.marks (b : Binding) : List TokenKind :=
  b.declarator.marks ++ if b.initial.isSome then [.assign] else []

/-- The marks of a list of variables. -/
def VarDecl.marks (d : VarDecl) : List TokenKind :=
  .typeName :: .semicolon :: commas d.bindings.length ++ d.bindings.flatMap Binding.marks

/-- The marks of a parameter. -/
def Param.marks (p : Param) : List TokenKind :=
  .typeName :: p.binding.marks

/-- The marks of what follows the first branch of a conditional. -/
def Alternatives.marks : Alternatives → List TokenKind
  | .nothing => []
  | .otherwise _ => [.kwElse]
  | .elseIf _ _ rest => .kwElif :: .lparen :: .rparen :: marks rest

/-- The marks of a statement. -/
def Stmt.marks : Stmt → List TokenKind
  | .block _ => [.lbrace, .rbrace]
  | .conditional _ _ rest => .kwIf :: .lparen :: .rparen :: rest.marks
  | .whileLoop _ _ => [.kwWhile, .lparen, .rparen]
  | .repeatLoop _ => [.kwRepeat]
  | .forLoop => [.kwFor]
  | .breakOut => [.kwBreak, .semicolon]
  | .continueOn => [.kwContinue, .semicolon]
  | .returnValue _ => [.kwReturn, .semicolon]
  | .declare decl => decl.marks
  | .evaluate _ => [.semicolon]

/-- The marks of a function. -/
def FuncDecl.marks (d : FuncDecl) : List TokenKind :=
  .typeName :: .lparen :: .rparen :: d.declarator.marks ++ commas d.params.length ++
    d.params.flatMap Param.marks ++
      match d.body with
      | none => [.semicolon]
      | some _ => [.lbrace, .rbrace]

namespace Node

/-- The kinds of the tokens of a node that belong to none of its children. -/
def marks : Node → List TokenKind
  | decl (.func d) => d.marks
  | decl (.var d) => d.marks
  | decl (.param d) => d.marks
  | stmt s => s.marks
  | expr e => e.marks

end Node

/-! ## Counting the tokens of a kind -/

/-- The kinds of lexemes. -/
def kindsOf (ls : List Lexeme) : List TokenKind :=
  ls.map Lexeme.kind

section Counting

variable (kind : TokenKind)

/-- How many of the lexemes of a tree are of a kind. -/
def countIn (ls : List Lexeme) : Nat :=
  (kindsOf ls).count kind

variable {kind}

@[simp] theorem countIn_nil : countIn kind [] = 0 := rfl

@[simp] theorem countIn_cons (l : Lexeme) (ls : List Lexeme) :
    countIn kind (l :: ls) = countIn kind ls + if l.kind = kind then 1 else 0 := by
  rw [countIn, kindsOf, List.map_cons, List.count_cons]
  simp only [beq_iff_eq]
  rfl

@[simp] theorem countIn_append (ls ms : List Lexeme) :
    countIn kind (ls ++ ms) = countIn kind ls + countIn kind ms := by
  rw [countIn, kindsOf, List.map_append, List.count_append]
  rfl

/-- Between the parts stand the commas. -/
theorem countIn_commaSeparated (parts : List (List Lexeme)) :
    countIn kind (Lexeme.commaSeparated parts) =
      (parts.map (countIn kind)).sum + (commas parts.length).count kind := by
  induction parts with
  | nil => rfl
  | cons part parts ih =>
      cases parts with
      | nil => simp [Lexeme.commaSeparated, commas]
      | cons next parts =>
          -- one more part brings one more comma, which stands before the next part
          have more : (commas (part :: next :: parts).length).count kind =
              (commas (next :: parts).length).count kind + countIn kind [Lexeme.comma] := by
            rw [countIn, kindsOf, ← List.count_append]
            exact (List.perm_append_singleton ..).symm.count_eq kind
          have split : Lexeme.commaSeparated (part :: next :: parts) =
              part ++ ([Lexeme.comma] ++ Lexeme.commaSeparated (next :: parts)) :=
            Lexeme.commaSeparated_cons_cons ..
          rw [split, countIn_append, countIn_append, ih, more]
          simp only [List.map_cons, List.sum_cons]
          omega

/-! ## One node and its children -/

/-- How many of the lexemes of some nodes are of a kind. -/
def countInAll (kind : TokenKind) (ns : List Node) : Nat :=
  (ns.map fun n => countIn kind n.lexemes).sum

@[simp] theorem countInAll_nil : countInAll kind [] = 0 := rfl

@[simp] theorem countInAll_cons (n : Node) (ns : List Node) :
    countInAll kind (n :: ns) = countIn kind n.lexemes + countInAll kind ns :=
  List.sum_cons

@[simp] theorem countInAll_append (ns ms : List Node) :
    countInAll kind (ns ++ ms) = countInAll kind ns + countInAll kind ms := by
  rw [countInAll, List.map_append, List.sum_append]
  rfl

@[simp] theorem countInAll_exprs (es : List Expr) :
    countInAll kind (es.map .expr) = (es.map fun e => countIn kind e.lexemes).sum := by
  rw [countInAll, List.map_map]
  rfl

@[simp] theorem countInAll_stmts (ss : List Stmt) :
    countInAll kind (ss.map .stmt) = countIn kind (Stmt.lexemesAll ss) := by
  induction ss with
  | nil => rfl
  | cons s ss ih => simp [ih, Stmt.lexemesAll, Node.lexemes]

theorem Expr.countIn_lexemes (e : Expr) :
    countIn kind e.lexemes = e.marks.count kind + countInAll kind (e.parts.map .expr) := by
  cases e with
  | call callee args =>
      simp [lexemes, marks, parts, lexemesEach_eq_map, Lexeme.inParens, countIn_commaSeparated,
        List.count_cons, Function.comp_def]
      omega
  | binary op lhs rhs =>
      simp [lexemes, marks, parts, Lexeme.operator, List.count_cons]
      omega
  | subscript base index =>
      simp [lexemes, marks, parts, List.count_cons]
      omega
  | paren inner =>
      simp [lexemes, marks, parts, Lexeme.inParens, List.count_cons]
      omega
  | _ =>
      simp [lexemes, marks, parts, Lexeme.operator, List.count_cons, Nat.add_comm]

theorem Declarator.countIn_lexemes (d : Declarator) :
    countIn kind d.lexemes = d.marks.count kind := by
  cases d with
  | plain name => simp [lexemes, marks, List.count_cons]
  | pointer name => simp [lexemes, marks, List.count_cons]

theorem Binding.countIn_lexemes (b : Binding) :
    countIn kind b.lexemes =
      b.marks.count kind + countInAll kind ((initialValues [b]).map .expr) := by
  obtain ⟨d, initial⟩ := b
  cases initial with
  | none => simp [lexemes, marks, initialValues, Declarator.countIn_lexemes]
  | some e =>
      simp [lexemes, marks, initialValues, Declarator.countIn_lexemes, List.count_cons]
      omega

theorem initialValues_cons (b : Binding) (bs : List Binding) :
    initialValues (b :: bs) = initialValues [b] ++ initialValues bs :=
  List.filterMap_append (l := [b])

theorem countIn_bindings (bs : List Binding) :
    (bs.map fun b => countIn kind b.lexemes).sum =
      (bs.flatMap Binding.marks).count kind + countInAll kind ((initialValues bs).map .expr) := by
  induction bs with
  | nil => rfl
  | cons b bs ih =>
      rw [List.map_cons, List.sum_cons, ih, b.countIn_lexemes, List.flatMap_cons,
        List.count_append, initialValues_cons b bs, List.map_append, countInAll_append]
      omega

theorem VarDecl.countIn_lexemes (d : VarDecl) :
    countIn kind d.lexemes =
      d.marks.count kind + countInAll kind ((initialValues d.bindings).map .expr) := by
  have parts := @countIn_bindings kind d.bindings
  simp [lexemes, marks, countIn_commaSeparated, List.count_cons, Function.comp_def] at parts ⊢
  omega

theorem Alternatives.countIn_lexemes (a : Alternatives) :
    countIn kind a.lexemes = a.marks.count kind + countInAll kind a.children := by
  induction a using Alternatives.children.induct with
  | case1 => rfl
  | case2 body =>
      simp [lexemes, marks, children, List.count_cons]
      omega
  | case3 test body rest ih =>
      simp [lexemes, marks, children, Lexeme.inParens, List.count_cons, ih]
      omega

theorem Stmt.countIn_lexemes (s : Stmt) :
    countIn kind s.lexemes = s.marks.count kind + countInAll kind s.children := by
  cases s with
  | block body =>
      simp [lexemes, marks, children, Lexeme.inBraces, List.count_cons]
      omega
  | conditional test body rest =>
      simp [lexemes, marks, children, Lexeme.inParens, List.count_cons,
        rest.countIn_lexemes]
      omega
  | whileLoop test body =>
      simp [lexemes, marks, children, Lexeme.inParens, List.count_cons]
      omega
  | declare decl => exact decl.countIn_lexemes
  | returnValue value =>
      simp [lexemes, marks, children, List.count_cons]
      omega
  | _ => simp [lexemes, marks, children, List.count_cons, Nat.add_comm]

theorem Param.countIn_lexemes (p : Param) :
    countIn kind p.lexemes =
      p.marks.count kind + countInAll kind ((initialValues [p.binding]).map .expr) := by
  simp [lexemes, marks, p.binding.countIn_lexemes, List.count_cons]
  omega

theorem countIn_params (ps : List Param) :
    (ps.map fun p => countIn kind p.lexemes).sum =
      (ps.flatMap Param.marks).count kind +
        countInAll kind ((initialValues (ps.map Param.binding)).map .expr) := by
  induction ps with
  | nil => rfl
  | cons p ps ih =>
      rw [List.map_cons, List.sum_cons, ih, p.countIn_lexemes, List.flatMap_cons,
        List.count_append, List.map_cons, initialValues_cons p.binding (ps.map Param.binding),
        List.map_append, countInAll_append]
      omega

theorem FuncDecl.countIn_lexemes (d : FuncDecl) :
    countIn kind d.lexemes = d.marks.count kind + countInAll kind (Decl.func d).children := by
  obtain ⟨typeName, declarator, params, body⟩ := d
  have inside := @countIn_params kind params
  cases body with
  | none =>
      simp [lexemes, marks, Decl.children, countIn_commaSeparated, Lexeme.inParens,
        Declarator.countIn_lexemes, List.count_cons, Function.comp_def] at inside ⊢
      omega
  | some body =>
      simp [lexemes, marks, Decl.children, countIn_commaSeparated, Lexeme.inParens,
        Lexeme.inBraces, Declarator.countIn_lexemes, List.count_cons, Function.comp_def]
        at inside ⊢
      omega

/-- The tokens of a kind in a node are its marks of that kind and those in its children. -/
theorem Node.countIn_lexemes (n : Node) :
    countIn kind n.lexemes = n.marks.count kind + countInAll kind n.children := by
  cases n with
  | decl d =>
      cases d with
      | func d => exact d.countIn_lexemes
      | var d => exact d.countIn_lexemes
      | param d => exact d.countIn_lexemes
  | stmt s => exact s.countIn_lexemes
  | expr e => exact e.countIn_lexemes

/-- How many marks of a kind some nodes have. -/
def marksAmong (kind : TokenKind) (ns : List Node) : Nat :=
  (ns.map fun n => n.marks.count kind).sum

@[simp] theorem marksAmong_cons (n : Node) (ns : List Node) :
    marksAmong kind (n :: ns) = n.marks.count kind + marksAmong kind ns :=
  List.sum_cons

theorem marksAmong_append (ns ms : List Node) :
    marksAmong kind (ns ++ ms) = marksAmong kind ns + marksAmong kind ms := by
  rw [marksAmong, List.map_append, List.sum_append]
  rfl

/-- The tokens of a kind in a node are the marks of that kind of all nodes below it. -/
theorem Node.countIn_lexemes_eq_marksAmong (n : Node) :
    countIn kind n.lexemes = marksAmong kind n.nodes := by
  induction n using Node.induction with
  | step n ih =>
      rw [n.countIn_lexemes, nodes_eq, marksAmong, List.map_cons, List.sum_cons]
      congr 1
      -- the children one by one
      generalize n.children = cs at ih
      induction cs with
      | nil => rfl
      | cons c cs others =>
          rw [List.forall_mem_cons] at ih
          rw [countInAll_cons, ih.1, others ih.2, List.flatMap_cons]
          exact (marksAmong_append ..).symm

/-- The tokens of a kind in a program are the marks of that kind of all its nodes. -/
theorem Program.countIn_lexemes (p : Program) :
    countIn kind p.lexemes = marksAmong kind p.nodes := by
  obtain ⟨decls⟩ := p
  induction decls with
  | nil => rfl
  | cons d decls ih =>
      have first : countIn kind d.lexemes = marksAmong kind (Node.decl d).nodes :=
        (Node.decl d).countIn_lexemes_eq_marksAmong
      rw [lexemes, nodes, List.flatMap_cons, List.flatMap_cons, countIn_append,
        marksAmong_append]
      exact congr_arg₂ (· + ·) first ih

end Counting

end ProcLang
