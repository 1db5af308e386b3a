import ProcLang.Proofs.Lexical.Scan
import ProcLang.Proofs.Tree.SourceOrder

/-!
# Trees whose texts are lexemes

A tree is spelled if every text that it keeps is a lexeme of the kind of its place. This says
nothing on its shape: operators may be grouped in any way, and a list of variables may be empty,
a function parameter may have a value, and every declaration may stand everywhere. Whether a tree
is spelled can be computed, by the scanner for its texts and by a walk for its nodes.
-/

set_option autoImplicit false

namespace ProcLang

/-- The text that an expression itself keeps is a lexeme of its kind. -/
def Expr.OwnTexts : Expr → Prop
  | literal kind text => kind.tokenKind.SpellsText text
  | ident name => TokenKind.SpellsText .ident name
  | binary op _ _ => (binaryStrength? op).isSome = true
  | prefixOp op _ => IsPrefixSpelling op
  | _ => True

instance : DecidablePred Expr.OwnTexts
  | .literal kind text => inferInstanceAs (Decidable (kind.tokenKind.SpellsText text))
  | .ident name => inferInstanceAs (Decidable (TokenKind.SpellsText .ident name))
  | .binary op _ _ => inferInstanceAs (Decidable ((binaryStrength? op).isSome = true))
  | .prefixOp op _ => inferInstanceAs (Decidable (IsPrefixSpelling op))
  | .paren _ | .postIncrement _ | .postDecrement _ | .call _ _ | .subscript _ _ => isTrue trivial

/-- The type and the names of variables are lexemes of their kinds. -/
def VarDecl.OwnTexts (d : VarDecl) : Prop :=
  TokenKind.SpellsText .typeName d.typeName ∧ ∀ b ∈ d.bindings, b.declarator.WellFormed

instance : DecidablePred VarDecl.OwnTexts := fun _ =>
  inferInstanceAs (Decidable (_ ∧ _))

/-- The type and the name of a parameter are lexemes of their kinds. -/
def Param.OwnTexts (p : Param) : Prop :=
  TokenKind.SpellsText .typeName p.typeName ∧ p.binding.declarator.WellFormed

instance : DecidablePred Param.OwnTexts := fun _ =>
  inferInstanceAs (Decidable (_ ∧ _))

/-- The types and the names in the head of a function are lexemes of their kinds. -/
def FuncDecl.OwnTexts (d : FuncDecl) : Prop :=
  TokenKind.SpellsText .typeName d.typeName ∧ d.declarator.WellFormed ∧
    ∀ p ∈ d.params, p.OwnTexts

instance : DecidablePred FuncDecl.OwnTexts := fun _ =>
  inferInstanceAs (Decidable (_ ∧ _ ∧ _))

/-- The texts of a node that belong to none of its children are lexemes of their kinds. -/
def Node.OwnTexts : Node → Prop
  | decl (.func d) => d.OwnTexts
  | decl (.var d) => d.OwnTexts
  | decl (.param d) => d.OwnTexts
  | stmt (.declare d) => d.OwnTexts
  | stmt _ => True
  | expr e => e.OwnTexts

instance : DecidablePred Node.OwnTexts
  | .decl (.func d) => inferInstanceAs (Decidable d.OwnTexts)
  | .decl (.var d) => inferInstanceAs (Decidable d.OwnTexts)
  | .decl (.param d) => inferInstanceAs (Decidable d.OwnTexts)
  | .stmt (.declare d) => inferInstanceAs (Decidable d.OwnTexts)
  | .stmt (.block _) | .stmt (.conditional ..) | .stmt (.whileLoop ..) | .stmt (.repeatLoop _)
  | .stmt .forLoop | .stmt .breakOut | .stmt .continueOn | .stmt (.returnValue _)
  | .stmt (.evaluate _) => isTrue trivial
  | .expr e => inferInstanceAs (Decidable e.OwnTexts)

/-- The texts of a node and of all nodes below it are lexemes of their kinds. -/
def Node.Spelled (n : Node) : Prop :=
  ∀ m ∈ n.nodes, m.OwnTexts

/-- The texts of a program are lexemes of their kinds. -/
def Program.Spelled (p : Program) : Prop :=
  ∀ n ∈ p.nodes, n.OwnTexts

/-- The nodes are listed by walking through the tree. -/
instance : DecidablePred Program.Spelled := fun p =>
  decidable_of_iff (∀ n ∈ p.visits, n.OwnTexts) (by rw [p.visits_eq_nodes]; rfl)

namespace Node

theorem Spelled.own {n : Node} (h : n.Spelled) : n.OwnTexts :=
  h n n.mem_nodes_self

theorem Spelled.child {n c : Node} (h : n.Spelled) (child : c ∈ n.children) : c.Spelled :=
  fun m below => h m (mem_nodes_of_child child below)

end Node

theorem Program.Spelled.decl {p : Program} (h : p.Spelled) {d : Decl} (mem : d ∈ p.decls) :
    (Node.decl d).Spelled :=
  fun n below => h n (List.mem_flatMap.2 ⟨d, mem, below⟩)

/-- The initial values of variables are among their children. -/
theorem mem_initialValues {bs : List Binding} {b : Binding} {e : Expr} (mem : b ∈ bs)
    (initial : b.initial = some e) : e ∈ initialValues bs :=
  List.mem_filterMap.2 ⟨b, mem, initial⟩

end ProcLang
