import Mathlib
import ProcLang.Proofs.Parse.Acceptance
import ProcLang.Proofs.Tree.Marks
import ProcLang.Proofs.Tree.Walk
import ProcLang.Tree.Tally

/-!
# The counts of a program agree with its tokens

A walk meets every node of a program once, so its counts are numbers of nodes
(`Program.tally_eq`); every node of an accepted program has its own marks of a few kinds,
so the tokens of these kinds are numbers of nodes too. Both together are the laws of
`tally_agrees_with_tokens`: statements and declarations, pairs of parentheses, and names
can be counted on the tree and on the tokens alike.
-/

set_option autoImplicit false

namespace ProcLang

namespace Node

/-- Statements among the nodes. -/
def isStmt : Node → Bool
  | stmt _ => true
  | _ => false

/-- Functions with a body. -/
def isFunction : Node → Bool
  | decl (.func d) => d.body.isSome
  | _ => false

/-- Functions without one. -/
def isPrototype : Node → Bool
  | decl (.func d) => d.body.isNone
  | _ => false

/-- Calls among the nodes. -/
def isCall : Node → Bool
  | expr (.call _ _) => true
  | _ => false

/-- Parentheses around an expression. -/
def isParen : Node → Bool
  | expr (.paren _) => true
  | _ => false

/-- Names used as expressions. -/
def isName : Node → Bool
  | expr (.ident _) => true
  | _ => false

/-- The number of variables that a node declares itself. -/
def varCount : Node → Nat
  | decl (.var d) => d.bindings.length
  | stmt (.declare d) => d.bindings.length
  | _ => 0

/-- The number of parameters that a node declares itself. -/
def paramCount : Node → Nat
  | decl (.func d) => d.params.length
  | _ => 0

end Node

/-! ## The counts are numbers of nodes -/

namespace Tally

/-- What one node adds to the counts. -/
def addNode (t : Tally) (n : Node) : Tally :=
  ⟨t.functions + n.isFunction.toNat, t.prototypes + n.isPrototype.toNat,
    t.vars + n.varCount, t.statements + n.isStmt.toNat, t.calls + n.isCall.toNat⟩

theorem counter_call (n : Node) (t : Tally) : counter.call n t = (t.addNode n, true) := by
  cases n with
  | decl d =>
      cases d with
      | func d =>
          obtain ⟨typeName, declarator, params, body⟩ := d
          cases body with
          | none => rfl
          | some body => rfl
      | var d => rfl
      | param d => rfl
  | stmt s => cases s <;> rfl
  | expr e => cases e <;> rfl

/-- The counts of a list of nodes. -/
def ofNodes (ns : List Node) : Tally :=
  ⟨ns.countP Node.isFunction, ns.countP Node.isPrototype, (ns.map Node.varCount).sum,
    ns.countP Node.isStmt, ns.countP Node.isCall⟩

theorem ofNodes_concat (ns : List Node) (n : Node) :
    ofNodes (ns ++ [n]) = (ofNodes ns).addNode n := by
  simp only [ofNodes, addNode, Bool.toNat, Bool.cond_eq_ite, List.countP_append,
    List.countP_singleton, List.map_append, List.sum_append, List.map_cons, List.map_nil,
    List.sum_singleton]

/-- After a walk over some nodes the counter shows what is among them. -/
theorem callAll_counter (ns : List Node) : counter.callAll ns zero = ofNodes ns := by
  induction ns using List.reverseRecOn with
  | nil => rfl
  | append_singleton ns n ih =>
      rw [Visitor.callAll] at ih ⊢
      rw [List.foldl_append, ih, ofNodes_concat]
      exact congrArg Prod.fst (counter_call n _)

end Tally

/-- The counts of a program are numbers of its nodes. -/
theorem Program.tally_eq (p : Program) : p.tally = Tally.ofNodes p.nodes := by
  have thorough : Tally.counter.Thorough := fun n t => congrArg Prod.snd (Tally.counter_call n t)
  rw [tally, thorough.visitProgram_eq, Tally.callAll_counter]

/-! ## The marks of one node -/

/-- The kinds of binary and of prefix operators. -/
def TokenKind.isOperator (kind : TokenKind) : Bool :=
  kind.precedence?.isSome || kind.isPrefixOperator

section Marks

variable {kind : TokenKind}

theorem count_commas (other : kind ≠ .comma) (n : Nat) : (commas n).count kind = 0 := by
  rw [commas, List.count_replicate, if_neg]
  simpa using Ne.symm other

theorem count_operator {op : String} (operator : (operatorKind op).isOperator = true)
    (plain : kind.isOperator = false) : [operatorKind op].count kind = 0 := by
  refine List.count_eq_zero.2 fun mem => ?_
  rw [← List.mem_singleton.1 mem, plain] at operator
  cases operator

theorem Binding.count_ident (b : Binding) : b.marks.count .ident = 1 := by
  obtain ⟨declarator, initial⟩ := b
  cases declarator <;> cases initial <;> rfl

theorem count_flatMap_eq_length {α : Type} {items : List α} {marks : α → List TokenKind}
    (one : ∀ a, (marks a).count kind = 1) : (items.flatMap marks).count kind = items.length := by
  induction items with
  | nil => rfl
  | cons a items ih =>
      rw [List.flatMap_cons, List.count_append, one, ih, List.length_cons, Nat.add_comm]

theorem count_of_subset {ks among : List TokenKind} (subset : ks ⊆ among) (other : kind ∉ among) :
    ks.count kind = 0 :=
  List.count_eq_zero.2 fun mem => other (subset mem)

theorem Binding.marks_subset (b : Binding) : b.marks ⊆ [.star, .ident, .assign] := by
  obtain ⟨declarator, initial⟩ := b
  cases declarator <;> cases initial <;> simp [marks, Declarator.marks]

end Marks

/-- The laws at one node. -/
structure Node.Lawful (n : Node) : Prop where
  statements : n.isStmt.toNat + n.isDecl.toNat =
    n.marks.count .lbrace + n.marks.count .kwIf + n.marks.count .kwWhile +
      n.marks.count .kwRepeat + n.marks.count .semicolon
  parens : n.isCall.toNat + n.isFunction.toNat + n.isPrototype.toNat + n.isParen.toNat +
    n.marks.count .kwIf + n.marks.count .kwElif + n.marks.count .kwWhile = n.marks.count .lparen
  names : n.isFunction.toNat + n.isPrototype.toNat + n.varCount + n.paramCount + n.isName.toNat =
    n.marks.count .ident

/-- A node with one operator as its only mark is in none of the laws. -/
theorem Node.Lawful.of_operator {e : Expr} {op : String} (marks : e.marks = [operatorKind op])
    (operator : (operatorKind op).isOperator = true) (isCall : (Node.expr e).isCall = false)
    (isParen : (Node.expr e).isParen = false) (isName : (Node.expr e).isName = false) :
    (Node.expr e).Lawful := by
  have none := fun kind => @count_operator kind op operator
  constructor
  · rw [Node.marks, marks, none .lbrace rfl, none .kwIf rfl, none .kwWhile rfl, none .kwRepeat rfl,
      none .semicolon rfl]
    rfl
  · rw [Node.marks, marks, none .kwIf rfl, none .kwElif rfl, none .kwWhile rfl, none .lparen rfl,
      isCall, isParen]
    rfl
  · rw [Node.marks, marks, none .ident rfl, isName]
    rfl

theorem Expr.lawful {e : Expr} (wf : e.WellFormed) : (Node.expr e).Lawful := by
  cases e with
  | literal kind text => cases kind <;> exact ⟨rfl, rfl, rfl⟩
  | binary op lhs rhs =>
      obtain ⟨⟨strength, spelled, -, -⟩, -, -⟩ := wf
      refine .of_operator rfl ?_ rfl rfl rfl
      rw [TokenKind.isOperator, ← binaryStrength?, spelled]
      rfl
  | prefixOp op arg =>
      refine .of_operator rfl ?_ rfl rfl rfl
      rw [TokenKind.isOperator, wf.1, Bool.or_true]
  | call callee args =>
      constructor <;> simp [Node.marks, marks, count_commas, Node.isStmt, Node.isDecl,
        Node.isCall, Node.isFunction, Node.isPrototype, Node.isParen, Node.varCount,
        Node.paramCount, Node.isName]
  | _ => exact ⟨rfl, rfl, rfl⟩

/-- Alternatives have a parenthesis for every `elif`. -/
theorem Alternatives.count_lparen (a : Alternatives) :
    a.marks.count .lparen = a.marks.count .kwElif := by
  induction a using Alternatives.children.induct with
  | case1 => rfl
  | case2 body => rfl
  | case3 test body rest ih => simpa [marks, List.count_cons] using ih

theorem Alternatives.marks_subset (a : Alternatives) :
    a.marks ⊆ [.kwElse, .kwElif, .lparen, .rparen] := by
  induction a using Alternatives.children.induct with
  | case1 => simp [marks]
  | case2 body => simp [marks]
  | case3 test body rest ih => simpa [marks] using ih

/-- Variables have a name each and one semicolon, and nothing else that is counted. -/
theorem VarDecl.count_ident (d : VarDecl) : d.marks.count .ident = d.bindings.length := by
  simp [marks, count_commas, count_flatMap_eq_length Binding.count_ident]

theorem bindings_subset (bs : List Binding) :
    bs.flatMap Binding.marks ⊆ [.star, .ident, .assign] := by
  intro kind mem
  obtain ⟨b, -, inside⟩ := List.mem_flatMap.1 mem
  exact b.marks_subset inside

theorem VarDecl.count_semicolon (d : VarDecl) : d.marks.count .semicolon = 1 := by
  have none : (d.bindings.flatMap Binding.marks).count .semicolon = 0 :=
    count_of_subset (bindings_subset d.bindings) (by decide)
  simp [marks, count_commas, none]

theorem VarDecl.count_other (d : VarDecl) {kind : TokenKind}
    (other : kind ∉ [.typeName, .semicolon, .comma, .star, .ident, .assign]) :
    d.marks.count kind = 0 := by
  simp only [List.mem_cons, List.not_mem_nil, or_false, not_or] at other
  obtain ⟨typeName, semicolon, comma, binding⟩ := other
  have none : (d.bindings.flatMap Binding.marks).count kind = 0 :=
    count_of_subset (bindings_subset d.bindings) (by simpa using binding)
  rw [marks, List.cons_append, List.cons_append, List.count_cons_of_ne (Ne.symm typeName),
    List.count_cons_of_ne (Ne.symm semicolon), List.count_append, count_commas comma, none]

/-- A node that declares variables and nothing else. -/
theorem Node.Lawful.of_variables {n : Node} {d : VarDecl} (marks : n.marks = d.marks)
    (once : n.isStmt.toNat + n.isDecl.toNat = 1) (varCount : n.varCount = d.bindings.length)
    (parens : n.isCall.toNat + n.isFunction.toNat + n.isPrototype.toNat + n.isParen.toNat = 0)
    (names : n.isFunction.toNat + n.isPrototype.toNat + n.paramCount + n.isName.toNat = 0) :
    n.Lawful := by
  have none := fun kind => @VarDecl.count_other d kind
  constructor
  · rw [marks, d.count_semicolon, none .lbrace (by decide), none .kwIf (by decide),
      none .kwWhile (by decide), none .kwRepeat (by decide), once]
  · rw [marks, none .kwIf (by decide), none .kwElif (by decide), none .kwWhile (by decide),
      none .lparen (by decide), parens]
  · rw [marks, d.count_ident, varCount]
    omega

theorem Stmt.lawful {s : Stmt} (wf : s.WellFormed) : (Node.stmt s).Lawful := by
  cases s with
  | conditional test body rest =>
      -- of the marks of the alternatives only `elif` and its parenthesis are counted
      have none := fun kind => @count_of_subset kind _ _ rest.marks_subset
      constructor
      · simp [Node.marks, marks, none, Node.isStmt, Node.isDecl]
      · simp [Node.marks, marks, none, Node.isCall, Node.isFunction, Node.isPrototype,
          Node.isParen, rest.count_lparen, Nat.add_comm]
      · simp [Node.marks, marks, none, Node.isFunction, Node.isPrototype, Node.varCount,
          Node.paramCount, Node.isName]
  | forLoop => exact wf.elim
  | declare d => exact .of_variables (d := d) rfl rfl rfl rfl rfl
  | _ => exact ⟨rfl, rfl, rfl⟩

theorem Param.count_ident (p : Param) : p.marks.count .ident = 1 := by
  rw [marks, List.count_cons_of_ne (by decide), p.binding.count_ident]

theorem params_subset (ps : List Param) :
    ps.flatMap Param.marks ⊆ [.typeName, .star, .ident, .assign] := by
  intro kind mem
  obtain ⟨p, -, inside⟩ := List.mem_flatMap.1 mem
  rcases List.mem_cons.1 inside with rfl | inside
  · exact List.mem_cons_self
  · exact List.mem_cons_of_mem _ (p.binding.marks_subset inside)

theorem FuncDecl.lawful (d : FuncDecl) : (Node.decl (.func d)).Lawful := by
  obtain ⟨typeName, declarator, params, body⟩ := d
  have none := fun kind => @count_of_subset kind _ _ (params_subset params)
  have names : (params.flatMap Param.marks).count .ident = params.length :=
    count_flatMap_eq_length Param.count_ident
  -- a pointer mark is no kind of the laws, and a body and a semicolon count alike
  cases declarator <;> cases body <;> constructor <;>
    simp [Node.marks, marks, Declarator.marks, none, names, count_commas, Node.isStmt,
      Node.isDecl, Node.isCall, Node.isFunction, Node.isPrototype, Node.isParen, Node.varCount,
      Node.paramCount, Node.isName, Nat.add_comm]

theorem Node.lawful {n : Node} (wf : n.WellFormed) : n.Lawful := by
  cases n with
  | decl d =>
      cases d with
      | func d => exact d.lawful
      | var d => exact .of_variables (d := d) rfl rfl rfl rfl rfl
      | param d => exact wf.elim
  | stmt s => exact Stmt.lawful wf
  | expr e => exact Expr.lawful wf

/-! ## The laws -/

/-- The laws of a list of nodes: each is the sum of those of the nodes. -/
theorem laws_of_lawful {ns : List Node} (h : ∀ n ∈ ns, n.Lawful) :
    ns.countP Node.isStmt + ns.countP Node.isDecl =
      marksAmong .lbrace ns + marksAmong .kwIf ns + marksAmong .kwWhile ns +
        marksAmong .kwRepeat ns + marksAmong .semicolon ns ∧
    ns.countP Node.isCall + ns.countP Node.isFunction + ns.countP Node.isPrototype +
        ns.countP Node.isParen + marksAmong .kwIf ns + marksAmong .kwElif ns +
        marksAmong .kwWhile ns =
      marksAmong .lparen ns ∧
    ns.countP Node.isFunction + ns.countP Node.isPrototype + (ns.map Node.varCount).sum +
        (ns.map Node.paramCount).sum + ns.countP Node.isName =
      marksAmong .ident ns := by
  induction ns with
  | nil => exact ⟨rfl, rfl, rfl⟩
  | cons n ns ih =>
      obtain ⟨first, others⟩ := List.forall_mem_cons.1 h
      obtain ⟨statements, parens, names⟩ := first
      obtain ⟨ih₁, ih₂, ih₃⟩ := ih others
      -- every number of the list begins with that of the first node
      simp only [Bool.toNat, Bool.cond_eq_ite] at statements parens names
      simp only [List.countP_cons, marksAmong_cons, List.map_cons, List.sum_cons]
      refine ⟨?_, ?_, ?_⟩ <;> omega

/-- How many tokens are of a kind. -/
def numberOf (kind : TokenKind) (tokens : List Token) : Nat :=
  (tokens.map fun t => t.kind).count kind

/-- The tokens of an accepted source and the nodes of its tree. -/
theorem numberOf_eq_marksAmong {source : String} {tokens : List Token} {u : Program}
    (lexed : tokenize source = .ok tokens) (parsed : parseSource source = .ok u)
    {kind : TokenKind} (proper : kind ≠ .endOfInput) :
    numberOf kind tokens = marksAmong kind u.nodes := by
  obtain ⟨-, -, scanned⟩ := (parseSource_eq_ok source u).1 parsed
  have lexemes := tokenize_lexemes_eq_ok.2 scanned
  rw [lexed] at lexemes
  have kinds : tokens.map (fun t => t.kind) = kindsOf (u.lexemes ++ [⟨.endOfInput, ""⟩]) := by
    rw [← Except.ok.inj lexemes, kindsOf, List.map_map]
    rfl
  rw [numberOf, kinds, ← u.countIn_lexemes]
  show countIn kind (u.lexemes ++ [⟨.endOfInput, ""⟩]) = _
  simp [proper.symm]

/-- The counts of a program agree with its tokens. In every accepted source there are as
many statements and declarations as braces that open, words `if`, `while` and `repeat`, and
semicolons; as many calls, functions and parenthesised expressions as parentheses that open,
those of the words `if`, `elif` and `while` apart; and as many functions, variables,
parameters and names in expressions as identifiers. -/
theorem tally_agrees_with_tokens (source : String) (tokens : List Token) (u : Program)
    (lexed : tokenize source = .ok tokens) (parsed : parseSource source = .ok u) :
    u.tally.statements + u.decls.length =
      numberOf .lbrace tokens + numberOf .kwIf tokens + numberOf .kwWhile tokens +
        numberOf .kwRepeat tokens + numberOf .semicolon tokens ∧
    u.tally.calls + u.tally.functions + u.tally.prototypes + u.nodes.countP Node.isParen +
        numberOf .kwIf tokens + numberOf .kwElif tokens + numberOf .kwWhile tokens =
      numberOf .lparen tokens ∧
    u.tally.functions + u.tally.prototypes + u.tally.vars + (u.nodes.map Node.paramCount).sum +
        u.nodes.countP Node.isName =
      numberOf .ident tokens := by
  have wf := ((parseSource_eq_ok source u).1 parsed).1
  have number := fun kind => @numberOf_eq_marksAmong source tokens u lexed parsed kind
  have laws := laws_of_lawful fun n mem => Node.lawful (wf.nodes n mem)
  rw [u.countP_isDecl] at laws
  rw [u.tally_eq, number .lbrace (by decide), number .kwIf (by decide), number .kwElif (by decide),
    number .kwWhile (by decide), number .kwRepeat (by decide), number .semicolon (by decide),
    number .lparen (by decide), number .ident (by decide)]
  exact laws

/-- A source with all branches of a conditional, a loop, two variables and a prototype. -/
def branches : String :=
  "int f(int n)\x7bif((n))g();elif(1)repeat n=f(2);int*a,b;g();\x7dint g();"

set_option maxRecDepth 100000 in
/-- Three calls, two functions and one pair of parentheses around a name, and one each of
`if` and `elif`: eight parentheses open. -/
theorem tally_agrees_with_tokens_branches :
    ∃ (tokens : List Token) (u : Program),
      tokenize branches = .ok tokens ∧ parseSource branches = .ok u ∧
      u.tally = ⟨1, 1, 2, 6, 3⟩ ∧ numberOf .lparen tokens = 8 ∧
      u.tally.statements + u.decls.length =
        numberOf .lbrace tokens + numberOf .kwIf tokens + numberOf .kwWhile tokens +
          numberOf .kwRepeat tokens + numberOf .semicolon tokens ∧
      u.tally.calls + u.tally.functions + u.tally.prototypes + u.nodes.countP Node.isParen +
          numberOf .kwIf tokens + numberOf .kwElif tokens + numberOf .kwWhile tokens =
        numberOf .lparen tokens ∧
      u.tally.functions + u.tally.prototypes + u.tally.vars + (u.nodes.map Node.paramCount).sum +
          u.nodes.countP Node.isName =
        numberOf .ident tokens := by
  obtain ⟨tokens, lexed, parens⟩ : ∃ tokens, tokenize branches = .ok tokens ∧
      numberOf .lparen tokens = 8 := ⟨_, by cbv, by cbv⟩
  obtain ⟨u, parsed, counts⟩ : ∃ u, parseSource branches = .ok u ∧
      u.tally = ⟨1, 1, 2, 6, 3⟩ := ⟨_, by cbv, by cbv⟩
  exact ⟨tokens, u, lexed, parsed, counts, parens, tally_agrees_with_tokens _ _ _ lexed parsed⟩

end ProcLang
