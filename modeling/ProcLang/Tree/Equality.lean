import ProcLang.Tree.Basic

/-!
# Equality of syntax trees

Two trees are equal when they have the same shape and the same texts. Equality is
decided by a structural comparison, with a companion for lists where a tree holds a
list of trees.
-/

set_option autoImplicit false

namespace ProcLang

mutual

/-- Structural comparison of expressions. -/
def Expr.same : Expr → Expr → Bool
  | .literal k s, .literal l t => k == l && s == t
  | .ident s, .ident t => s == t
  | .paren a, .paren b => Expr.same a b
  | .binary o a b, .binary p c d => o == p && Expr.same a c && Expr.same b d
  | .prefixOp o a, .prefixOp p b => o == p && Expr.same a b
  | .postIncrement a, .postIncrement b => Expr.same a b
  | .postDecrement a, .postDecrement b => Expr.same a b
  | .call a as, .call b bs => Expr.same a b && Expr.sameList as bs
  | .subscript a b, .subscript c d => Expr.same a c && Expr.same b d
  | _, _ => false

/-- Structural comparison of expression lists. -/
def Expr.sameList : List Expr → List Expr → Bool
  | [], [] => true
  | a :: as, b :: bs => Expr.same a b && Expr.sameList as bs
  | _, _ => false

end

mutual

theorem Expr.same_iff : (a b : Expr) → (a.same b = true ↔ a = b)
  | .literal k s, b => by cases b <;> simp [Expr.same]
  | .ident s, b => by cases b <;> simp [Expr.same]
  | .paren a, b => by cases b <;> simp [Expr.same, Expr.same_iff a]
  | .binary o a c, b => by
      cases b <;> simp [Expr.same, Expr.same_iff a, Expr.same_iff c, and_assoc]
  | .prefixOp o a, b => by cases b <;> simp [Expr.same, Expr.same_iff a]
  | .postIncrement a, b => by cases b <;> simp [Expr.same, Expr.same_iff a]
  | .postDecrement a, b => by cases b <;> simp [Expr.same, Expr.same_iff a]
  | .call a as, b => by
      cases b <;> simp [Expr.same, Expr.same_iff a, Expr.sameList_iff as]
  | .subscript a c, b => by
      cases b <;> simp [Expr.same, Expr.same_iff a, Expr.same_iff c]

theorem Expr.sameList_iff : (as bs : List Expr) → (Expr.sameList as bs = true ↔ as = bs)
  | [], bs => by cases bs <;> simp [Expr.sameList]
  | a :: as, bs => by
      cases bs <;> simp [Expr.sameList, Expr.same_iff a, Expr.sameList_iff as]

end

instance : DecidableEq Expr := fun a b => decidable_of_iff _ (Expr.same_iff a b)

deriving instance DecidableEq for Binding

deriving instance DecidableEq for VarDecl

deriving instance DecidableEq for Param

mutual

/-- Structural comparison of statements. -/
def Stmt.same : Stmt → Stmt → Bool
  | .block as, .block bs => Stmt.sameList as bs
  | .conditional e a r, .conditional f b s => e == f && Stmt.same a b && Alternatives.same r s
  | .whileLoop e a, .whileLoop f b => e == f && Stmt.same a b
  | .repeatLoop a, .repeatLoop b => Stmt.same a b
  | .forLoop, .forLoop => true
  | .breakOut, .breakOut => true
  | .continueOn, .continueOn => true
  | .returnValue e, .returnValue f => e == f
  | .declare d, .declare f => d == f
  | .evaluate e, .evaluate f => e == f
  | _, _ => false

/-- Structural comparison of the alternatives of conditionals. -/
def Alternatives.same : Alternatives → Alternatives → Bool
  | .nothing, .nothing => true
  | .otherwise a, .otherwise b => Stmt.same a b
  | .elseIf e a r, .elseIf f b s => e == f && Stmt.same a b && Alternatives.same r s
  | _, _ => false

/-- Structural comparison of statement lists. -/
def Stmt.sameList : List Stmt → List Stmt → Bool
  | [], [] => true
  | a :: as, b :: bs => Stmt.same a b && Stmt.sameList as bs
  | _, _ => false

end

mutual

theorem Stmt.same_iff : (a b : Stmt) → (a.same b = true ↔ a = b)
  | .block as, b => by cases b <;> simp [Stmt.same, Stmt.sameList_iff as]
  | .conditional e a r, b => by
      cases b <;> simp [Stmt.same, Stmt.same_iff a, Alternatives.same_iff r, and_assoc]
  | .whileLoop e a, b => by cases b <;> simp [Stmt.same, Stmt.same_iff a]
  | .repeatLoop a, b => by cases b <;> simp [Stmt.same, Stmt.same_iff a]
  | .forLoop, b => by cases b <;> simp [Stmt.same]
  | .breakOut, b => by cases b <;> simp [Stmt.same]
  | .continueOn, b => by cases b <;> simp [Stmt.same]
  | .returnValue e, b => by cases b <;> simp [Stmt.same]
  | .declare d, b => by cases b <;> simp [Stmt.same]
  | .evaluate e, b => by cases b <;> simp [Stmt.same]

theorem Alternatives.same_iff : (a b : Alternatives) → (a.same b = true ↔ a = b)
  | .nothing, b => by cases b <;> simp [Alternatives.same]
  | .otherwise a, b => by cases b <;> simp [Alternatives.same, Stmt.same_iff a]
  | .elseIf e a r, b => by
      cases b <;>
        simp [Alternatives.same, Stmt.same_iff a, Alternatives.same_iff r, and_assoc]

theorem Stmt.sameList_iff : (as bs : List Stmt) → (Stmt.sameList as bs = true ↔ as = bs)
  | [], bs => by cases bs <;> simp [Stmt.sameList]
  | a :: as, bs => by
      cases bs <;> simp [Stmt.sameList, Stmt.same_iff a, Stmt.sameList_iff as]

end

instance : DecidableEq Stmt := fun a b => decidable_of_iff _ (Stmt.same_iff a b)

instance : DecidableEq Alternatives :=
  fun a b => decidable_of_iff _ (Alternatives.same_iff a b)

deriving instance DecidableEq for FuncDecl

deriving instance DecidableEq for Decl

deriving instance DecidableEq for Program

end ProcLang
