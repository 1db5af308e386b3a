import ProcLang.Lexical.Pattern
import ProcLang.Tree.Lexemes

/-!
# Well-formed trees

The trees of the language. Every text is a lexeme of the kind that its place needs;
operators are grouped by their strength, equal ones to the right, so that no
parentheses are missing; and an `elif` or `else` belongs to the nearest conditional
that can take it.
-/

set_option autoImplicit false

namespace ProcLang

/-- The binding strength of a binary operator text. -/
def binaryStrength? (op : String) : Option Nat :=
  (operatorKind op).precedence?

/-- Texts of prefix operators. -/
def IsPrefixSpelling (op : String) : Prop :=
  (operatorKind op).isPrefixOperator = true

instance : DecidablePred IsPrefixSpelling := fun _ =>
  inferInstanceAs (Decidable (_ = _))

/-- Texts that spell a given kind. -/
def TokenKind.SpellsText (kind : TokenKind) (text : String) : Prop :=
  kind.Spells text.toList

instance (kind : TokenKind) [DecidablePred kind.Spells] : DecidablePred kind.SpellsText :=
  fun text => inferInstanceAs (Decidable (kind.Spells text.toList))

namespace Expr

/-- The strength of the outermost operator of a binary expression. -/
def outerStrength? : Expr → Option Nat
  | binary op _ _ => binaryStrength? op
  | _ => none

/-- Whether the outermost node is a binary operator. -/
def isBinary : Expr → Bool
  | binary _ _ _ => true
  | _ => false

/-- Whether a postfix operator, a call or a subscript can follow. -/
def isPostfixBase : Expr → Bool
  | binary _ _ _ | prefixOp _ _ => false
  | _ => true

mutual

/-- Well-formed expressions. -/
def WellFormed : Expr → Prop
  | literal kind text => kind.tokenKind.SpellsText text
  | ident name => TokenKind.SpellsText .ident name
  | paren inner => WellFormed inner
  | binary op lhs rhs =>
      (∃ strength, binaryStrength? op = some strength ∧
        (lhs.isBinary = true → ∃ s, lhs.outerStrength? = some s ∧ strength < s) ∧
        (rhs.isBinary = true → ∃ s, rhs.outerStrength? = some s ∧ strength ≤ s)) ∧
      WellFormed lhs ∧ WellFormed rhs
  | prefixOp op arg => IsPrefixSpelling op ∧ arg.isBinary = false ∧ WellFormed arg
  | postIncrement base => base.isPostfixBase = true ∧ WellFormed base
  | postDecrement base => base.isPostfixBase = true ∧ WellFormed base
  | call callee args => callee.isPostfixBase = true ∧ WellFormed callee ∧ AllWellFormed args
  | subscript base index => base.isPostfixBase = true ∧ WellFormed base ∧ WellFormed index

/-- Lists of well-formed expressions. -/
def AllWellFormed : List Expr → Prop
  | [] => True
  | e :: es => WellFormed e ∧ AllWellFormed es

end

theorem allWellFormed_iff {es : List Expr} : AllWellFormed es ↔ ∀ e ∈ es, e.WellFormed := by
  induction es with
  | nil => simp [AllWellFormed]
  | cons e es ih => rw [AllWellFormed, ih, List.forall_mem_cons]

end Expr

/-- Declared names that are identifiers. -/
def Declarator.WellFormed (d : Declarator) : Prop :=
  TokenKind.SpellsText .ident d.name

instance [DecidablePred (TokenKind.SpellsText .ident)] (d : Declarator) : Decidable d.WellFormed :=
  inferInstanceAs (Decidable (TokenKind.SpellsText .ident d.name))

/-- Well-formed names with well-formed initial values. -/
def Binding.WellFormed (b : Binding) : Prop :=
  b.declarator.WellFormed ∧ ∀ e ∈ b.initial, e.WellFormed

/-- Well-formed lists of variables, which are never empty. -/
def VarDecl.WellFormed (d : VarDecl) : Prop :=
  TokenKind.SpellsText .typeName d.typeName ∧ d.bindings ≠ [] ∧
    ∀ b ∈ d.bindings, b.WellFormed

/-- Well-formed parameters, which have no initial value. -/
def Param.WellFormed (p : Param) : Prop :=
  TokenKind.SpellsText .typeName p.typeName ∧ p.binding.declarator.WellFormed ∧
    p.binding.initial = none

mutual

/-- Whether a statement ends in a conditional that could still take an `elif` or an
`else`. -/
def Stmt.isOpen : Stmt → Bool
  | .conditional _ _ rest => Alternatives.isOpen rest
  | .whileLoop _ body => Stmt.isOpen body
  | .repeatLoop body => Stmt.isOpen body
  | _ => false

/-- Whether a conditional with these alternatives could still take another. -/
def Alternatives.isOpen : Alternatives → Bool
  | .nothing => true
  | .otherwise body => Stmt.isOpen body
  | .elseIf _ _ rest => Alternatives.isOpen rest

end

/-- Whether there is an alternative. -/
def Alternatives.isPresent : Alternatives → Bool
  | .nothing => false
  | _ => true

mutual

/-- Well-formed statements. A statement that another alternative follows is not open. -/
def Stmt.WellFormed : Stmt → Prop
  | .block body => Stmt.AllWellFormed body
  | .conditional test body rest =>
      test.WellFormed ∧ Stmt.WellFormed body ∧
        (rest.isPresent = true → body.isOpen = false) ∧ Alternatives.WellFormed rest
  | .whileLoop test body => test.WellFormed ∧ Stmt.WellFormed body
  | .repeatLoop body => Stmt.WellFormed body
  | .forLoop => False
  | .breakOut => True
  | .continueOn => True
  | .returnValue value => value.WellFormed
  | .declare decl => decl.WellFormed
  | .evaluate value => value.WellFormed

/-- Well-formed alternatives. -/
def Alternatives.WellFormed : Alternatives → Prop
  | .nothing => True
  | .otherwise body => Stmt.WellFormed body
  | .elseIf test body rest =>
      test.WellFormed ∧ Stmt.WellFormed body ∧
        (rest.isPresent = true → body.isOpen = false) ∧ Alternatives.WellFormed rest

/-- Lists of well-formed statements. -/
def Stmt.AllWellFormed : List Stmt → Prop
  | [] => True
  | s :: ss => Stmt.WellFormed s ∧ Stmt.AllWellFormed ss

end

theorem Stmt.allWellFormed_iff {ss : List Stmt} :
    Stmt.AllWellFormed ss ↔ ∀ s ∈ ss, s.WellFormed := by
  induction ss with
  | nil => simp [Stmt.AllWellFormed]
  | cons s ss ih => rw [Stmt.AllWellFormed, ih, List.forall_mem_cons]

theorem Stmt.wellFormed_braces {body : List Stmt} :
    (Stmt.block body).WellFormed ↔ ∀ s ∈ body, s.WellFormed := by
  rw [Stmt.WellFormed, Stmt.allWellFormed_iff]

/-- Well-formed functions. -/
def FuncDecl.WellFormed (d : FuncDecl) : Prop :=
  TokenKind.SpellsText .typeName d.typeName ∧ d.declarator.WellFormed ∧
    (∀ p ∈ d.params, p.WellFormed) ∧ ∀ body ∈ d.body, Stmt.AllWellFormed body

/-- Well-formed top-level declarations: functions and variables. -/
def Decl.WellFormed : Decl → Prop
  | .func d => d.WellFormed
  | .var d => d.WellFormed
  | .param _ => False

/-- Well-formed programs. -/
def Program.WellFormed (p : Program) : Prop :=
  ∀ d ∈ p.decls, d.WellFormed

end ProcLang
