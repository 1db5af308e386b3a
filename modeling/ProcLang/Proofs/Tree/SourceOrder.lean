import ProcLang.Proofs.Tree.Walk
import ProcLang.Tree.Layout
import ProcLang.Tree.Leaves
import ProcLang.Tree.Places

/-!
# A walk follows the printed text

A visitor that records every node and walks on meets the nodes of a program in the order of
their places (`visits_in_source_order`). The printer goes through the tree on its own. To
compare the two, the leaves of a tree are changed and the rest is not: the printed text is then
one form with holes, the same for all texts of the leaves, and the texts of the leaves fill the
holes in the order in which the walk meets them (`Writes`).
-/

set_option autoImplicit false

namespace ProcLang

/-! ## Recording -/

namespace Visitor

/-- A recorder that always walks on stops nowhere. -/
theorem recorder_thorough (chosen : Family → Bool) : (recorder chosen true).Thorough := by
  intro n visited
  cases n with
  | decl d => cases h : chosen .decl <;> simp [call, recorder, h]
  | stmt s => cases h : chosen .stmt <;> simp [call, recorder, h]
  | expr e => cases h : chosen .expr <;> simp [call, recorder, h]

/-- The recorder of all families appends every node it is called on. -/
theorem callAll_recorder (ns visited : List Node) :
    (recorder (fun _ => true) true).callAll ns visited = visited ++ ns := by
  induction ns generalizing visited with
  | nil => exact (List.append_nil visited).symm
  | cons n ns ih =>
      have first : ((recorder (fun _ => true) true).call n visited).1 = visited ++ [n] := by
        cases n <;> rfl
      rw [callAll, List.foldl_cons, first]
      exact (ih (visited ++ [n])).trans (List.append_cons ..).symm

end Visitor

/-- The recorded nodes are all nodes in order. -/
theorem Program.visits_eq_nodes (p : Program) : p.visits = p.nodes := by
  rw [visits, (Visitor.recorder_thorough _).visitProgram_eq, Visitor.callAll_recorder,
    List.nil_append]

/-! ## Forms -/

/-- A form with its holes filled: each hole takes the next one of the texts. -/
def fill : List (Option Char) → List (List Char) → List Char
  | [], _ => []
  | some c :: form, texts => c :: fill form texts
  | none :: form, [] => fill form []
  | none :: form, text :: texts => text ++ fill form texts

/-- How many holes a form has. -/
def holes (form : List (Option Char)) : Nat :=
  form.countP Option.isNone

theorem holes_append (form form' : List (Option Char)) :
    holes (form ++ form') = holes form + holes form' :=
  List.countP_append

/-- A text is a form without holes. -/
theorem holes_fixed (cs : List Char) : holes (cs.map some) = 0 :=
  List.countP_eq_zero.2 (List.forall_mem_map.2 fun _ _ => Bool.false_ne_true)

theorem fill_fixed (cs : List Char) (texts : List (List Char)) : fill (cs.map some) texts = cs := by
  induction cs with
  | nil => rfl
  | cons c cs ih => exact congrArg (c :: ·) ih

/-- Two forms, one behind the other. -/
theorem fill_append {form : List (Option Char)} {texts : List (List Char)}
    (enough : holes form = texts.length) (form' : List (Option Char)) (texts' : List (List Char)) :
    fill (form ++ form') (texts ++ texts') = fill form texts ++ fill form' texts' := by
  induction form generalizing texts with
  | nil =>
      obtain rfl := List.eq_nil_of_length_eq_zero enough.symm
      rfl
  | cons part form ih =>
      cases part with
      | some c => exact congrArg (c :: ·) (ih enough)
      | none =>
          cases texts with
          | nil => simp [holes] at enough
          | cons text texts =>
              have enough : holes form = texts.length := by simpa [holes] using enough
              exact (congrArg (text ++ ·) (ih enough)).trans (List.append_assoc ..).symm

/-! ## Layouts with leaves -/

open Fragment

/-- The texts of the leaves of a node, in the order of its nodes. -/
def Node.leaves (n : Node) : List String :=
  n.nodes.filterMap Node.leafText?

theorem Node.leaves_eq (n : Node) :
    n.leaves = n.leafText?.toList ++ n.children.flatMap leaves := by
  rw [leaves, nodes_eq, List.filterMap_cons, List.filterMap_flatMap]
  cases n.leafText? <;> rfl

/-- The fragments `own` are written for a part of a tree with these leaves, and `mapped f` where
`f` is applied to them: the texts of both are one form with a hole for each leaf. -/
def Writes (own : List Fragment) (mapped : (String → String) → List Fragment)
    (leaves : List String) : Prop :=
  ∃ form, holes form = leaves.length ∧
    own.flatMap chars = fill form (leaves.map String.toList) ∧
      ∀ f, (mapped f).flatMap chars = fill form (leaves.map fun text => (f text).toList)

namespace Writes

variable {own own' : List Fragment} {mapped mapped' : (String → String) → List Fragment}
  {leaves leaves' : List String}

theorem fixed (gs : List Fragment) : Writes gs (fun _ => gs) [] :=
  ⟨(gs.flatMap chars).map some, holes_fixed _, (fill_fixed ..).symm, fun _ => (fill_fixed ..).symm⟩

theorem leaf (text : String) : Writes [word text] (fun f => [word (f text)]) [text] :=
  ⟨[none], rfl, rfl, fun _ => rfl⟩

theorem append (h : Writes own mapped leaves) (h' : Writes own' mapped' leaves') :
    Writes (own ++ own') (fun f => mapped f ++ mapped' f) (leaves ++ leaves') := by
  obtain ⟨form, enough, whole, each⟩ := h
  obtain ⟨form', enough', whole', each'⟩ := h'
  refine ⟨form ++ form', ?_, ?_, fun f => ?_⟩
  · rw [holes_append, List.length_append, enough, enough']
  · rw [List.flatMap_append, whole, whole', List.map_append,
      fill_append (by rw [enough, List.length_map])]
  · rw [List.flatMap_append, each, each', List.map_append,
      fill_append (by rw [enough, List.length_map])]

theorem behind (gs : List Fragment) (h : Writes own mapped leaves) :
    Writes (gs ++ own) (fun f => gs ++ mapped f) leaves :=
  (fixed gs).append h

theorem before (h : Writes own mapped leaves) (gs : List Fragment) :
    Writes (own ++ gs) (fun f => mapped f ++ gs) leaves := by
  have whole := h.append (fixed gs)
  rwa [List.append_nil] at whole

/-- Parts with commas between them. -/
theorem commaSeparated {α : Type} {own : α → List Fragment}
    {mapped : (String → String) → α → List Fragment} {leaves : α → List String} {as : List α}
    (h : ∀ a ∈ as, Writes (own a) (fun f => mapped f a) (leaves a)) :
    Writes (Fragment.commaSeparated (as.map own))
      (fun f => Fragment.commaSeparated (as.map (mapped f)))
      (as.flatMap leaves) := by
  induction as with
  | nil => exact fixed []
  | cons a as ih =>
      rw [List.forall_mem_cons] at h
      cases as with
      | nil => simpa [Fragment.commaSeparated, List.intercalate] using h.1
      | cons a' as =>
          have whole := h.1.append ((ih h.2).behind [word ",", space])
          simpa [Fragment.commaSeparated, List.intercalate, List.intersperse] using whole

end Writes

mutual

theorem Expr.writes : (e : Expr) →
    Writes e.layout (fun f => (e.mapLeaves f).layout) (Node.expr e).leaves
  | .literal kind text => by
      rw [Node.leaves_eq]
      exact .leaf text
  | .ident name => by
      rw [Node.leaves_eq]
      exact .leaf name
  | .paren inner => by
      rw [Node.leaves_eq]
      simpa [Expr.layout, Expr.mapLeaves, Node.leafText?, Node.children, Expr.parts] using
        ((Expr.writes inner).behind [word "("]).before [word ")"]
  | .binary op lhs rhs => by
      rw [Node.leaves_eq]
      simpa [Expr.layout, Expr.mapLeaves, Node.leafText?, Node.children, Expr.parts] using
        (Expr.writes lhs).append ((Expr.writes rhs).behind [space, word op, space])
  | .prefixOp op arg => by
      have kept (f : String → String) : (arg.mapLeaves f).isPrefixed = arg.isPrefixed := by
        cases arg <;> rfl
      rw [Node.leaves_eq]
      simpa [Expr.layout, Expr.mapLeaves, Node.leafText?, Node.children, Expr.parts, kept] using
        (Expr.writes arg).behind (word op :: if arg.isPrefixed then [space] else [])
  | .postIncrement base => by
      rw [Node.leaves_eq]
      simpa [Expr.layout, Expr.mapLeaves, Node.leafText?, Node.children, Expr.parts] using
        (Expr.writes base).before [word "++"]
  | .postDecrement base => by
      rw [Node.leaves_eq]
      simpa [Expr.layout, Expr.mapLeaves, Node.leafText?, Node.children, Expr.parts] using
        (Expr.writes base).before [word "--"]
  | .call callee args => by
      have list := Writes.commaSeparated (Expr.writesEach args)
      rw [Node.leaves_eq]
      simpa [Expr.layout, Expr.mapLeaves, Node.leafText?, Node.children, Expr.parts,
        Expr.layoutEach_eq_map, Expr.mapLeavesEach_eq_map, List.flatMap_map, Function.comp_def] using
        (Expr.writes callee).append ((list.behind [word "("]).before [word ")"])
  | .subscript base index => by
      rw [Node.leaves_eq]
      simpa [Expr.layout, Expr.mapLeaves, Node.leafText?, Node.children, Expr.parts] using
        (Expr.writes base).append (((Expr.writes index).behind [word "["]).before [word "]"])

theorem Expr.writesEach : (es : List Expr) →
    ∀ e ∈ es, Writes e.layout (fun f => (e.mapLeaves f).layout) (Node.expr e).leaves
  | [] => fun _ mem => absurd mem List.not_mem_nil
  | e :: es => List.forall_mem_cons.2 ⟨Expr.writes e, Expr.writesEach es⟩

end

/-- The leaves of initial values. -/
def Binding.leaves (b : Binding) : List String :=
  b.initial.toList.flatMap fun e => (Node.expr e).leaves

theorem Binding.writes (b : Binding) :
    Writes b.layout (fun f => (b.mapLeaves f).layout) b.leaves := by
  obtain ⟨d, initial⟩ := b
  cases initial with
  | none => exact .fixed d.layout
  | some e =>
      simpa [Binding.layout, Binding.mapLeaves, Binding.leaves] using
        e.writes.behind (d.layout ++ [space, word "=", space])

theorem leaves_initialValues (bs : List Binding) :
    ((initialValues bs).map Node.expr).flatMap Node.leaves = bs.flatMap Binding.leaves := by
  induction bs with
  | nil => rfl
  | cons b bs ih =>
      obtain ⟨d, initial⟩ := b
      cases initial with
      | none => exact ih
      | some e =>
          rw [List.flatMap_cons, ← ih]
          simp [initialValues, Binding.leaves]

theorem VarDecl.writes (d : VarDecl) :
    Writes d.layout (fun f => (d.mapLeaves f).layout) (d.bindings.flatMap Binding.leaves) := by
  have list := Writes.commaSeparated fun b (_ : b ∈ d.bindings) => b.writes
  simpa [VarDecl.layout, VarDecl.mapLeaves, Function.comp_def] using
    (list.behind [word d.typeName, space]).before [word ";"]

theorem Param.writes (p : Param) :
    Writes p.layout (fun f => (p.mapLeaves f).layout) p.binding.leaves :=
  p.binding.writes.behind [word p.typeName, space]

theorem guardLayout_writes (keyword : String) (test : Expr) :
    Writes (guardLayout keyword test) (fun f => guardLayout keyword (test.mapLeaves f))
      (Node.expr test).leaves :=
  (test.writes.behind [word keyword, space, word "("]).before [word ")", space]

/-- Braces around statements. -/
theorem inBraces_writes (depth : Nat) {ss : List Stmt} {leaves : List String}
    (h : Writes (Stmt.layoutLines (depth + 1) ss)
      (fun f => Stmt.layoutLines (depth + 1) (Stmt.mapLeavesEach f ss)) leaves) :
    Writes (inBraces depth (Stmt.layoutLines (depth + 1) ss))
      (fun f => inBraces depth (Stmt.layoutLines (depth + 1) (Stmt.mapLeavesEach f ss))) leaves := by
  cases ss with
  | nil =>
      have empty := h.before [word "\x7b", word "\x7d"]
      simpa [Stmt.layoutLines, Stmt.mapLeavesEach, inBraces] using empty
  | cons s ss =>
      simpa [Stmt.layoutLines, Stmt.mapLeavesEach_cons, inBraces] using
        (h.behind [word "\x7b"]).before [newline depth, word "\x7d"]

mutual

theorem Stmt.writes (depth : Nat) : (s : Stmt) →
    Writes (s.layout depth) (fun f => (s.mapLeaves f).layout depth) (Node.stmt s).leaves
  | .block body => by
      rw [Node.leaves_eq]
      simpa [Stmt.layout, Stmt.mapLeaves, Node.leafText?, Node.children, Stmt.children,
        List.flatMap_map] using inBraces_writes depth (Stmt.writesLines (depth + 1) body)
  | .conditional test body rest => by
      rw [Node.leaves_eq]
      simpa [Stmt.layout, Stmt.mapLeaves, Node.leafText?, Node.children, Stmt.children] using
        (guardLayout_writes "if" test).append
          ((Stmt.writes depth body).append (Alternatives.writes depth rest))
  | .whileLoop test body => by
      rw [Node.leaves_eq]
      simpa [Stmt.layout, Stmt.mapLeaves, Node.leafText?, Node.children, Stmt.children] using
        (guardLayout_writes "while" test).append (Stmt.writes depth body)
  | .repeatLoop body => by
      rw [Node.leaves_eq]
      simpa [Stmt.layout, Stmt.mapLeaves, Node.leafText?, Node.children, Stmt.children] using
        (Stmt.writes depth body).behind [word "repeat", space]
  | .forLoop => by
      rw [Node.leaves_eq]
      exact .fixed _
  | .breakOut => by
      rw [Node.leaves_eq]
      exact .fixed _
  | .continueOn => by
      rw [Node.leaves_eq]
      exact .fixed _
  | .returnValue value => by
      rw [Node.leaves_eq]
      simpa [Stmt.layout, Stmt.mapLeaves, Node.leafText?, Node.children, Stmt.children] using
        (value.writes.behind [word "return", space]).before [word ";"]
  | .declare decl => by
      rw [Node.leaves_eq, Node.children, Stmt.children, leaves_initialValues]
      exact decl.writes
  | .evaluate value => by
      rw [Node.leaves_eq]
      simpa [Stmt.layout, Stmt.mapLeaves, Node.leafText?, Node.children, Stmt.children] using
        value.writes.before [word ";"]

theorem Alternatives.writes (depth : Nat) : (a : Alternatives) →
    Writes (a.layout depth) (fun f => (a.mapLeaves f).layout depth) (a.children.flatMap Node.leaves)
  | .nothing => .fixed []
  | .otherwise body => by
      simpa [Alternatives.layout, Alternatives.mapLeaves, Alternatives.children] using
        (Stmt.writes depth body).behind [space, word "else", space]
  | .elseIf test body rest => by
      simpa [Alternatives.layout, Alternatives.mapLeaves, Alternatives.children] using
        ((guardLayout_writes "elif" test).append
          ((Stmt.writes depth body).append (Alternatives.writes depth rest))).behind [space]

theorem Stmt.writesLines (depth : Nat) : (ss : List Stmt) →
    Writes (Stmt.layoutLines depth ss) (fun f => Stmt.layoutLines depth (Stmt.mapLeavesEach f ss))
      (ss.flatMap fun s => (Node.stmt s).leaves)
  | [] => .fixed []
  | s :: ss => by
      simpa [Stmt.layoutLines, Stmt.mapLeavesEach_cons] using
        ((Stmt.writes depth s).append (Stmt.writesLines depth ss)).behind [newline depth]

end

theorem FuncDecl.writes (d : FuncDecl) :
    Writes d.layout (fun f => (d.mapLeaves f).layout) (Node.decl (.func d)).leaves := by
  obtain ⟨typeName, name, params, body⟩ := d
  have list := Writes.commaSeparated fun p (_ : p ∈ params) => p.writes
  have head := (list.behind (word typeName :: space :: name.layout ++ [word "("])).before [word ")"]
  rw [Node.leaves_eq, Node.children, Decl.children, List.flatMap_append, leaves_initialValues,
    List.flatMap_map]
  cases body with
  | none =>
      simpa [FuncDecl.layout, FuncDecl.mapLeaves, Node.leafText?, Function.comp_def] using
        head.before [word ";"]
  | some body =>
      have block := (inBraces_writes 0 (Stmt.writesLines 1 body)).behind [space]
      simpa [FuncDecl.layout, FuncDecl.mapLeaves, Node.leafText?, Function.comp_def,
        List.flatMap_map] using head.append block

theorem Decl.writes (d : Decl) :
    Writes d.layout (fun f => (d.mapLeaves f).layout) (Node.decl d).leaves := by
  cases d with
  | func d => exact d.writes
  | var d =>
      rw [Node.leaves_eq, Node.children, Decl.children, leaves_initialValues]
      exact d.writes
  | param p =>
      rw [Node.leaves_eq, Node.children, Decl.children, leaves_initialValues, List.flatMap_singleton]
      exact p.writes

theorem Program.writes (p : Program) :
    Writes p.layout (fun f => (p.mapLeaves f).layout) (p.nodes.filterMap Node.leafText?) := by
  obtain ⟨decls⟩ := p
  induction decls with
  | nil => exact .fixed []
  | cons d decls ih =>
      simpa [Program.layout, Program.mapLeaves, Program.nodes, Node.leaves] using
        (d.writes.before [newline 0]).append ih

/-! ## The order of visits -/

/-- A walk visits every node once, in source order. The visits are the nodes at the places of the
program: each place is listed once, in order, and none before one above it. The texts of the
visited leaves are written in this order, too: whatever the leaves of a program are changed to by
`f`, its printed text is the same form, with their texts in the holes. -/
theorem visits_in_source_order (p : Program) :
    (Enumerates p.places p.nodeAt? p.visits ∧
      p.places.Pairwise fun place later => ¬ later <+: place) ∧
    ∃ form, holes form = (p.visits.filterMap Node.leafText?).length ∧
      p.print.toList = fill form ((p.visits.filterMap Node.leafText?).map String.toList) ∧
      ∀ f, (p.mapLeaves f).print.toList =
        fill form ((p.visits.filterMap Node.leafText?).map fun text => (f text).toList) := by
  rw [p.visits_eq_nodes]
  refine ⟨⟨p.enumerates, p.enumerates.above_first⟩, ?_⟩
  obtain ⟨form, enough, own, each⟩ := p.writes
  refine ⟨form, enough, ?_, fun f => ?_⟩
  · rw [Program.print, concat, String.toList_ofList, own]
  · rw [Program.print, concat, String.toList_ofList, each]

end ProcLang
