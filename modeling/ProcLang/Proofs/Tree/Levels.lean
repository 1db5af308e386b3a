import ProcLang.Proofs.Parse.Lists
import ProcLang.Tree.Openings

/-!
# The levels of a tree are those that it opens

The count of levels of a tree is the number of the innermost level among its openings: with
`depth` levels open around it, the tree opens no level above `n` exactly if `depth` and its
own levels come to `n` at most (`Extent.Opens`). An extent put together from parts opens the
largest of what the parts open, and one more where it is nested.
-/

set_option autoImplicit false

namespace ProcLang

namespace Extent

/-- An extent opens `k` levels at once, and no more. -/
def Opens (x : Extent) (k : Nat) : Prop :=
  ∀ depth place n, depth ≤ n →
    ((∀ o ∈ x.openings depth place, o.level ≤ n) ↔ depth + k ≤ n)

variable {x y : Extent} {j k : Nat}

theorem Opens.of_eq (h : x.Opens j) (same : j = k) : x.Opens k := same ▸ h

theorem opens_nothing : nothing.Opens 0 := by
  intro depth place n room
  exact ⟨fun _ => room, fun _ o mem => absurd mem List.not_mem_nil⟩

theorem opens_token : token.Opens 0 := by
  intro depth place n room
  exact ⟨fun _ => room, fun _ o mem => absurd mem List.not_mem_nil⟩

theorem Opens.append (hx : x.Opens j) (hy : y.Opens k) : (x ++ y).Opens (max j k) := by
  intro depth place n room
  rw [append_openings, List.forall_mem_append, hx depth place n room,
    hy depth (place + x.length) n room]
  omega

theorem Opens.nest (hx : x.Opens k) : x.nest.Opens (1 + k) := by
  intro depth place n room
  show (∀ o ∈ ⟨depth + 1, place⟩ :: x.openings (depth + 1) place, o.level ≤ n) ↔ _
  rw [List.forall_mem_cons]
  constructor
  · rintro ⟨here, inside⟩
    have := (hx (depth + 1) place n here).1 inside
    omega
  · intro bound
    have here : depth + 1 ≤ n := by omega
    exact ⟨here, (hx (depth + 1) place n here).2 (by omega)⟩

theorem Opens.between (hx : x.Opens k) : (between x).Opens k :=
  ((opens_token.append hx).append opens_token).of_eq (by omega)

variable {α : Type} {f : α → Extent} {g : α → Nat} {as : List α}

theorem opens_concat (h : ∀ a ∈ as, (f a).Opens (g a)) :
    (concat (as.map f)).Opens (largest (as.map g)) := by
  induction as with
  | nil => exact opens_nothing
  | cons a as ih =>
      rw [List.forall_mem_cons] at h
      exact h.1.append (ih h.2)

theorem opens_commaSeparated (h : ∀ a ∈ as, (f a).Opens (g a)) :
    (commaSeparated (as.map f)).Opens (largest (as.map g)) := by
  induction as with
  | nil => exact opens_nothing
  | cons a as ih =>
      rw [List.forall_mem_cons] at h
      cases as with
      | nil => exact h.1.of_eq (Nat.max_zero _).symm
      | cons b as =>
          refine ((h.1.append opens_token).append (ih h.2)).of_eq ?_
          rw [Nat.max_zero]
          rfl

end Extent

open Extent

namespace Expr

mutual

theorem extent_opens : (e : Expr) → e.extent.Opens e.innerLevels
  | literal kind text => opens_token
  | ident name => opens_token
  | paren inner => (extent_opens inner).nest.between
  | binary op lhs rhs =>
      (((extent_opens lhs).append opens_token).append (extent_opens rhs).nest).of_eq (by
        rw [innerLevels]; omega)
  | prefixOp op arg =>
      (opens_token.append (extent_opens arg).nest).of_eq (by rw [innerLevels]; omega)
  | postIncrement base =>
      ((extent_opens base).append opens_token).of_eq (by rw [innerLevels]; omega)
  | postDecrement base =>
      ((extent_opens base).append opens_token).of_eq (by rw [innerLevels]; omega)
  | call callee args => by
      rw [extent, innerLevels, extentEach_eq_map, levelsOfAll_eq_largest]
      exact (extent_opens callee).append (opens_commaSeparated (extentEach_opens args)).between
  | subscript base index => (extent_opens base).append (extent_opens index).nest.between

theorem extentEach_opens : (es : List Expr) → ∀ e ∈ es, e.extent.nest.Opens e.levels
  | [] => fun _ mem => absurd mem List.not_mem_nil
  | e :: es => List.forall_mem_cons.2 ⟨(extent_opens e).nest, extentEach_opens es⟩

end

end Expr

theorem Declarator.extent_opens (d : Declarator) : d.extent.Opens 0 := by
  cases d with
  | plain name => exact opens_token
  | pointer name => exact opens_token.append opens_token

theorem Binding.extent_opens (b : Binding) : b.extent.Opens b.levels := by
  obtain ⟨d, initial⟩ := b
  cases initial with
  | none => exact d.extent_opens
  | some e =>
      refine ((d.extent_opens.append opens_token).append e.extent_opens.nest).of_eq ?_
      show max (max 0 0) (1 + e.innerLevels) = 1 + e.innerLevels
      omega

theorem VarDecl.extent_opens (d : VarDecl) : d.extent.Opens d.levels :=
  (opens_commaSeparated fun b _ => b.extent_opens).between

/-- A condition opens the levels of its expression. -/
theorem condition_opens (test : Expr) : (between (nest test.extent)).Opens test.levels :=
  test.extent_opens.nest.between

mutual

theorem Stmt.extent_opens : (s : Stmt) → s.extent.Opens s.levels
  | .block body => by
      rw [Stmt.extent, Stmt.levels, Stmt.extentEach_eq_map, Stmt.levelsOfAll_eq_largest]
      exact (opens_concat (Stmt.extentEach_opens body)).between.nest
  | .conditional test body rest =>
      (((opens_token.append (condition_opens test)).append (Stmt.extent_opens body)).append
        (Alternatives.extent_opens rest)).nest.of_eq (by rw [Stmt.levels]; omega)
  | .whileLoop test body =>
      ((opens_token.append (condition_opens test)).append (Stmt.extent_opens body)).nest.of_eq (by
        rw [Stmt.levels]; omega)
  | .repeatLoop body =>
      (opens_token.append (Stmt.extent_opens body)).nest.of_eq (by rw [Stmt.levels]; omega)
  | .forLoop => opens_token.nest
  | .breakOut => (opens_token.append opens_token).nest
  | .continueOn => (opens_token.append opens_token).nest
  | .returnValue value => value.extent_opens.nest.between.nest
  | .declare decl => decl.extent_opens.nest
  | .evaluate value =>
      (value.extent_opens.nest.append opens_token).nest.of_eq (by
        rw [Stmt.levels, Expr.levels]; omega)

theorem Alternatives.extent_opens : (a : Alternatives) → a.extent.Opens a.levels
  | .nothing => opens_nothing
  | .otherwise body =>
      (opens_token.append (Stmt.extent_opens body)).of_eq (by rw [Alternatives.levels]; omega)
  | .elseIf test body rest =>
      (((opens_token.append (condition_opens test)).append (Stmt.extent_opens body)).append
        (Alternatives.extent_opens rest)).of_eq (by rw [Alternatives.levels]; omega)

theorem Stmt.extentEach_opens : (ss : List Stmt) → ∀ s ∈ ss, s.extent.Opens s.levels
  | [] => fun _ mem => absurd mem List.not_mem_nil
  | s :: ss => List.forall_mem_cons.2 ⟨Stmt.extent_opens s, Stmt.extentEach_opens ss⟩

end

theorem Param.extent_opens (p : Param) : p.extent.Opens p.binding.levels :=
  (opens_token.append p.binding.extent_opens).of_eq (Nat.zero_max _)

/-- A function whose parameters open no level opens those of its body. -/
theorem FuncDecl.extent_opens {d : FuncDecl} (flat : ∀ p ∈ d.params, p.extent.Opens 0) :
    d.extent.Opens (Decl.func d).levels := by
  obtain ⟨typeName, name, params, body⟩ := d
  have noLevel : largest (params.map fun _ => 0) = 0 := by
    apply Nat.le_zero.1
    rw [largest_le_iff]
    intro m mem
    obtain ⟨p, -, rfl⟩ := List.mem_map.1 mem
    exact Nat.le_refl 0
  have list : (commaSeparated (params.map Param.extent)).Opens 0 :=
    (opens_commaSeparated (g := fun _ => 0) flat).of_eq noLevel
  have head := (opens_token.append name.extent_opens).append list.between
  cases body with
  | none => exact head.append opens_token
  | some body =>
      have block := (opens_concat fun s (_ : s ∈ body) => Stmt.extent_opens s).between
      refine (head.append block).of_eq ?_
      show max _ (largest (body.map Stmt.levels)) = Stmt.levelsOfAll body
      rw [Stmt.levelsOfAll_eq_largest, Nat.max_self, Nat.max_self, Nat.zero_max]

end ProcLang
