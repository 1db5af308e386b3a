import Mathlib
import ProcLang.Proofs.Parse.Expressions
import ProcLang.Proofs.Parse.NestingLimit
import ProcLang.Tree.Grouping

/-!
# Operators are grouped by strength

An expression is read as a flat sequence of unary operands with binary operators between
them, as long as it can be, and its tree is the reference grouping of this sequence: the
root is the leftmost of the loosest operators (`expr_grouped`). An operand is a chain of
postfix operators with prefix operators before it, so all binary operators in it stand in
brackets. Nothing is asked of the tokens; their texts need not fit their kinds.

The parser collects a left operand in a loop and reads every right operand with the
strength of its operator as the least one. Between two rounds all operators collected so
far are tighter than the one ahead, because the right operands end before a looser one.
So the operator that a round takes in is looser than all before it, its right operand
holds none that is looser, and it is the root of what has been collected
(`group_append`).
-/

set_option autoImplicit false

namespace ProcLang

open TokenReader

/-! ## Sequences of operands and operators -/

/-- The unary operand at the front of `ts`, before `rest`: what is read there with no limit
on the levels. -/
def OperandAt (ts : List Token) (e : Expr) (rest : List Token) : Prop :=
  (unlimitedParsers.unary 0 ts).value = some e ∧ (unlimitedParsers.unary 0 ts).rest = rest

/-- The tokens of `ts` before `rest` are unary operands with binary operators between them:
the operand `first`, and for each step its operator and the operand behind that. -/
inductive OperandSequence : List Token → Expr → List OperatorStep → List Token → Prop where
  | operand {ts rest : List Token} {first : Expr} :
      OperandAt ts first rest → OperandSequence ts first [] rest
  | operator {ts mid rest : List Token} {first operand : Expr} {t : Token} {strength : Nat}
      {steps : List OperatorStep} :
      OperandAt ts first (t :: mid) → t.kind.precedence? = some strength →
        OperandSequence mid operand steps rest →
          OperandSequence ts first (⟨t.text, strength, operand⟩ :: steps) rest

/-- Two sequences with an operator between them are one. -/
theorem OperandSequence.append {ts mid rest : List Token} {first operand : Expr} {t : Token}
    {strength : Nat} {steps steps' : List OperatorStep}
    (left : OperandSequence ts first steps (t :: mid))
    (operator : t.kind.precedence? = some strength)
    (right : OperandSequence mid operand steps' rest) :
    OperandSequence ts first (steps ++ ⟨t.text, strength, operand⟩ :: steps') rest := by
  generalize behind : t :: mid = stop at left
  induction left with
  | operand read =>
      subst behind
      exact .operator read operator right
  | operator read strong _ ih => exact .operator read strong (ih behind)

/-- An operand leaves no more tokens than there were. -/
theorem OperandAt.length_le {ts rest : List Token} {e : Expr} (h : OperandAt ts e rest) :
    rest.length ≤ ts.length := by
  obtain ⟨-, rfl⟩ := h
  have agree := (FreeParser.unlimitedParsers_related (ts.length + 1) _ (Nat.le_refl _)).unary
  obtain ⟨same, left⟩ := agree 0 ts (Nat.lt_succ_self _)
  rw [← same]
  exact left

theorem OperandSequence.length_le {ts rest : List Token} {first : Expr}
    {steps : List OperatorStep} (h : OperandSequence ts first steps rest) :
    rest.length ≤ ts.length := by
  induction h with
  | operand read => exact read.length_le
  | operator read _ _ ih =>
      have := read.length_le
      rw [List.length_cons] at this
      omega

/-- The tokens determine the sequence. -/
theorem OperandSequence.unique {ts rest : List Token} {first first' : Expr}
    {steps steps' : List OperatorStep} (h : OperandSequence ts first steps rest)
    (h' : OperandSequence ts first' steps' rest) : first' = first ∧ steps' = steps := by
  have same {ts rest rest' : List Token} {e e' : Expr} (h : OperandAt ts e rest)
      (h' : OperandAt ts e' rest') : e' = e ∧ rest' = rest :=
    ⟨Option.some.inj (h'.1.symm.trans h.1), h'.2.symm.trans h.2⟩
  -- a sequence that goes on behind an operator leaves less than one that ends before it
  have further {t : Token} {mid rest : List Token} {first : Expr} {steps : List OperatorStep}
      (h : OperandSequence mid first steps rest) (whole : rest = t :: mid) : False := by
    have := h.length_le
    rw [whole, List.length_cons] at this
    omega
  induction h generalizing first' steps' with
  | operand read =>
      cases h' with
      | operand read' => exact ⟨(same read read').1, rfl⟩
      | operator read' _ others' => exact (further others' (same read read').2.symm).elim
  | operator read strong others ih =>
      cases h' with
      | operand read' => exact (further others (same read read').2).elim
      | operator read' strong' others' =>
          obtain ⟨rfl, behind⟩ := same read read'
          obtain ⟨rfl, rfl⟩ := List.cons.inj behind
          obtain ⟨rfl, rfl⟩ := ih others'
          obtain rfl := Option.some.inj (strong'.symm.trans strong)
          exact ⟨rfl, rfl⟩

/-! ## Unary operands -/

namespace Parser

variable {inner : Nested Parser} {ts rest : List Token} {e : Expr}

/-- What is read as a unary operand is one, and behind it no postfix chain goes on. -/
structure EndsUnary (e : Expr) (rest : List Token) : Prop where
  unary : e.isUnary = true
  chainEnds : (headKind rest).continuesChain = false

theorem primary_isChain (h : inner.primary.Yields ts e rest) : e.isChain = true := by
  rcases h.of_choose rfl with ⟨t, r, family, -, -, ⟨value, -⟩⟩ | ⟨-, other⟩
  · obtain rfl := Option.some.inj value
    rfl
  rcases other.of_choose rfl with ⟨t, r, name, -, -, ⟨value, -⟩⟩ | ⟨-, parens⟩
  · obtain rfl := Option.some.inj value
    rfl
  · obtain ⟨_, _, -, parens⟩ := parens.of_bind
    obtain ⟨_, _, -, parens⟩ := parens.of_bind
    obtain ⟨_, _, -, ⟨value, -⟩⟩ := parens.of_bind
    obtain rfl := Option.some.inj value
    rfl

/-- A round of a postfix chain puts a link behind the base, or ends where no chain goes on. -/
theorem postfixRound_inv {base : Expr} {round : Round Expr Expr}
    (h : (inner.postfixRound base).Yields ts round rest) :
    (∃ e, round = .again e ∧ e.isChain = base.isChain) ∨
      round = .done base ∧ (headKind rest).continuesChain = false := by
  obtain ⟨kind, mid, ⟨hkind, rfl⟩, next⟩ := h.of_bind
  obtain rfl := Option.some.inj hkind
  split at next
  · obtain ⟨_, _, -, ⟨value, -⟩⟩ := next.of_bind
    exact .inl ⟨_, (Option.some.inj value).symm, rfl⟩
  · obtain ⟨_, _, -, ⟨value, -⟩⟩ := next.of_bind
    exact .inl ⟨_, (Option.some.inj value).symm, rfl⟩
  · obtain ⟨_, _, -, next⟩ := next.of_bind
    obtain ⟨_, _, -, ⟨value, -⟩⟩ := next.of_bind
    exact .inl ⟨_, (Option.some.inj value).symm, rfl⟩
  · obtain ⟨_, _, -, next⟩ := next.of_bind
    obtain ⟨_, _, -, next⟩ := next.of_bind
    obtain ⟨_, _, -, ⟨value, -⟩⟩ := next.of_bind
    exact .inl ⟨_, (Option.some.inj value).symm, rfl⟩
  next plusPlus minusMinus lparen lbracket =>
    obtain ⟨value, rfl⟩ := next
    refine .inr ⟨(Option.some.inj value).symm, ?_⟩
    -- all kinds that continue a chain have been looked for
    unfold TokenKind.continuesChain
    split
    · exact absurd ‹_› plusPlus
    · exact absurd ‹_› minusMinus
    · exact absurd ‹_› lparen
    · exact absurd ‹_› lbracket
    · rfl

theorem postfixChain_ends (h : inner.postfixChain.Yields ts e rest) : EndsUnary e rest := by
  obtain ⟨base, mid, first, chain⟩ := h.of_bind
  obtain ⟨last, mid, isChain, final⟩ := chain.of_loop (fun base _ => base.isChain = true)
    (fun base ts next mid isChain round => by
      rcases postfixRound_inv round with ⟨e, again, link⟩ | ⟨done, -⟩
      · obtain rfl := Round.again.inj again
        exact link.trans isChain
      · cases done)
    (primary_isChain first)
  rcases postfixRound_inv final with ⟨e, again, -⟩ | ⟨done, chainEnds⟩
  · cases again
  · obtain rfl := Round.done.inj done
    exact ⟨Expr.isUnary_of_isChain isChain, chainEnds⟩

theorem unaryExpr_ends
    (unary : ∀ ts e rest, inner.unary.Yields ts e rest → EndsUnary e rest)
    (h : inner.unaryExpr.Yields ts e rest) : EndsUnary e rest := by
  rcases h.of_choose rfl with ⟨t, r, _, -, -, next⟩ | ⟨-, chain⟩
  · obtain ⟨arg, mid, operand, ⟨value, rfl⟩⟩ := next.of_bind
    obtain rfl := Option.some.inj value
    obtain ⟨isUnary, chainEnds⟩ := unary _ _ _ operand
    exact ⟨isUnary, chainEnds⟩
  · exact postfixChain_ends chain

/-- However many levels there are, an operand that is read is the one that is read without a
limit, and it ends as unary operands do. -/
theorem unary_reads (levels : Nat)
    (h : (nestedParsers levels).unary.Yields ts e rest) : OperandAt ts e rest ∧ EndsUnary e rest := by
  constructor
  · obtain ⟨value, left⟩ := h
    rcases (nestedParsers_cut levels (Nat.zero_add levels)).unary ts with ⟨-, same⟩ | ⟨l, -, -, refused, -⟩
    · rw [same] at value left
      exact ⟨value, left⟩
    · exact absurd (refused.symm.trans value).symm (Option.some_ne_none e)
  · induction levels generalizing ts e rest with
    | zero => exact absurd h.1.symm (Option.some_ne_none e)
    | succ levels ih => exact unaryExpr_ends (fun _ _ _ => ih) h

/-! ## Operands of an operator -/

/-- The tokens of `ts` before `rest` are the operand `first` and the operators `steps` with
their operands, the operators are at least as tight as `least`, and `e` is the grouping. -/
structure Groups (least : Nat) (ts : List Token) (e first : Expr) (steps : List OperatorStep)
    (rest : List Token) : Prop where
  sequence : OperandSequence ts first steps rest
  grouping : e = group first steps
  unary : first.isUnary = true ∧ ∀ s ∈ steps, s.operand.isUnary = true
  atLeast : ∀ s ∈ steps, least ≤ s.strength

/-- A whole operand of an operator of strength `least`: no operator ahead belongs to it. -/
def WholeOperand (least : Nat) (ts : List Token) (e : Expr) (rest : List Token) : Prop :=
  ∃ first steps, Groups least ts e first steps rest ∧ (headKind rest).EndsOperand least

/-- What holds between the rounds of binary operators: the operators collected so far are
tighter than the one ahead. -/
structure Collected (least : Nat) (ts : List Token) (lhs first : Expr)
    (steps : List OperatorStep) (mid : List Token) : Prop extends
    Groups least ts lhs first steps mid where
  tighter : ∀ s ∈ steps, (headKind mid).EndsOperand s.strength
  chainEnds : (headKind mid).continuesChain = false

/-- A round takes in an operator with its right operand. The operator becomes the root. -/
theorem Collected.snoc {least strength : Nat} {ts mid rest : List Token} {t : Token}
    {lhs first rhs operand : Expr} {steps steps' : List OperatorStep}
    (left : Collected least ts lhs first steps (t :: mid))
    (operator : t.kind.precedence? = some strength) (strong : least ≤ strength)
    (right : Groups strength mid rhs operand steps' rest)
    (ends : (headKind rest).EndsOperand strength) :
    Collected least ts (.binary t.text lhs rhs) first
      (steps ++ ⟨t.text, strength, operand⟩ :: steps') rest where
  sequence := left.sequence.append operator right.sequence
  grouping := by
    have looser : ∀ s ∈ steps, strength < s.strength := fun s mem =>
      (left.tighter s mem).2 strength operator
    rw [group_append looser right.atLeast, left.grouping, right.grouping]
  unary := by
    refine ⟨left.unary.1, List.forall_mem_append.2 ⟨left.unary.2, ?_⟩⟩
    exact List.forall_mem_cons.2 right.unary
  atLeast := by
    refine List.forall_mem_append.2 ⟨left.atLeast, List.forall_mem_cons.2 ⟨strong, ?_⟩⟩
    intro s mem
    exact Nat.le_trans strong (right.atLeast s mem)
  tighter := by
    -- what is ahead ends the right operand, and so every operand of a tighter operator
    have behind (s : Nat) (h : strength ≤ s) : (headKind rest).EndsOperand s :=
      ⟨ends.1, fun s' ahead => Nat.lt_of_lt_of_le (ends.2 s' ahead) h⟩
    refine List.forall_mem_append.2 ⟨fun s mem => ?_, List.forall_mem_cons.2 ⟨?_, fun s mem => ?_⟩⟩
    · exact behind _ (Nat.le_of_lt ((left.tighter s mem).2 strength operator))
    · exact behind _ (Nat.le_refl _)
    · exact behind _ (right.atLeast s mem)
  chainEnds := ends.1

/-- A round takes an operator with its right operand, or ends before what is looser than
`least` or no operator. -/
theorem binaryRound_inv {least : Nat} {lhs : Expr} {round : Round Expr Expr}
    (h : (inner.binaryRound least lhs).Yields ts round rest) :
    (∃ t mid strength rhs, ts = t :: mid ∧ t.kind.precedence? = some strength ∧ least ≤ strength ∧
      (inner.operand strength).Yields mid rhs rest ∧ round = .again (.binary t.text lhs rhs)) ∨
    round = .done lhs ∧ rest = ts ∧
      ∀ strength, (headKind ts).precedence? = some strength → strength < least := by
  rcases h.of_choose rfl with ⟨t, mid, strength, rfl, accepted, next⟩ | ⟨refused, ⟨value, left⟩⟩
  · obtain ⟨operator, strong⟩ := Option.filter_eq_some_iff.1 accepted
    obtain ⟨rhs, _, right, ⟨value, rfl⟩⟩ := next.of_bind
    exact .inl ⟨t, mid, strength, rhs, rfl, operator, of_decide_eq_true strong, right,
      (Option.some.inj value).symm⟩
  · refine .inr ⟨(Option.some.inj value).symm, left.symm, fun strength ahead => ?_⟩
    have weak := Option.filter_eq_none_iff.1 refused strength ahead
    rw [decide_eq_true_eq, Nat.not_le] at weak
    exact weak

/-- The step: if unary operands and right operands are read as they should be, so are
expressions one level above them. -/
theorem operatorExpr_whole
    (unary : ∀ ts e rest, inner.unaryExpr.Yields ts e rest → OperandAt ts e rest ∧ EndsUnary e rest)
    (operand : ∀ strength ts e rest, (inner.operand strength).Yields ts e rest →
      WholeOperand strength ts e rest)
    {least : Nat} (h : (inner.operatorExpr least).Yields ts e rest) :
    WholeOperand least ts e rest := by
  obtain ⟨first, mid, read, rounds⟩ := h.of_bind
  obtain ⟨standing, ends⟩ := unary _ _ _ read
  have start : ∃ first' steps, Collected least ts first first' steps mid := by
    refine ⟨first, [], ⟨.operand standing, (group_nil first).symm, ⟨ends.unary, ?_⟩, ?_⟩, ?_,
      ends.chainEnds⟩
    all_goals exact fun s mem => absurd mem List.not_mem_nil
  have keeps : ∀ lhs m next m', (∃ first' steps, Collected least ts lhs first' steps m) →
      (inner.binaryRound least lhs).Yields m (.again next) m' →
        ∃ first' steps, Collected least ts next first' steps m' := by
    rintro lhs m next m' ⟨first', steps, collected⟩ round
    rcases binaryRound_inv round with ⟨t, mid, strength, rhs, rfl, operator, strong, right, again⟩ |
      ⟨done, -, -⟩
    · obtain ⟨operand', steps', groups, ends⟩ := operand _ _ _ _ right
      obtain rfl := Round.again.inj again
      exact ⟨_, _, collected.snoc operator strong groups ends⟩
    · cases done
  obtain ⟨lhs, m, ⟨first', steps, collected⟩, final⟩ := rounds.of_loop _ keeps start
  rcases binaryRound_inv final with ⟨t, mid, strength, rhs, -, -, -, -, again⟩ | ⟨done, rfl, weak⟩
  · cases again
  · obtain rfl := Round.done.inj done
    exact ⟨first', steps, collected.toGroups, collected.chainEnds, weak⟩

/-- At every level operands are read as they should be. -/
theorem operand_whole (levels least : Nat)
    (h : ((nestedParsers levels).operand least).Yields ts e rest) :
    WholeOperand least ts e rest := by
  induction levels generalizing least ts e rest with
  | zero => exact absurd h.1.symm (Option.some_ne_none e)
  | succ levels ih =>
      exact operatorExpr_whole (fun _ _ _ => unary_reads (levels + 1))
        (fun strength _ _ _ => ih strength) h

end Parser

/-- Precedence and associativity. Where an expression is read, with any limit on its levels,
the tokens consumed are one sequence of unary operands and binary operators, and in one way
only: an operand is a chain of postfix operators with prefix operators before it, and holds no
binary operator but in parentheses, arguments and subscripts. The tree is the reference grouping
of this sequence. No token could have been added to it: the one behind it is no binary operator
and continues no postfix chain. -/
theorem expr_grouped (limit : Nat) (stream : TokenStream) (e : Expr)
    (accepted : (stream.readExprWithin limit).result = .ok e) :
    ∃ first steps,
      OperandSequence stream.ahead first steps (stream.readExprWithin limit).left.ahead ∧
      (∀ first' steps',
        OperandSequence stream.ahead first' steps' (stream.readExprWithin limit).left.ahead →
          first' = first ∧ steps' = steps) ∧
      (first.isUnary = true ∧ ∀ s ∈ steps, s.operand.isUnary = true) ∧
      e = group first steps ∧
      (headKind (stream.readExprWithin limit).left.ahead).precedence? = none ∧
      (headKind (stream.readExprWithin limit).left.ahead).continuesChain = false := by
  have read : ((nestedParsers limit).operand 0).Yields stream.ahead e
      (stream.readExprWithin limit).left.ahead :=
    ⟨Parser.read_result_eq_ok.1 accepted,
      (congrArg TokenStream.ahead (Parser.read_left _ stream)).symm⟩
  obtain ⟨first, steps, groups, chainEnds, weaker⟩ := Parser.operand_whole limit 0 read
  refine ⟨first, steps, groups.sequence, fun _ _ other => groups.sequence.unique other,
    groups.unary, groups.grouping, ?_, chainEnds⟩
  -- no operator is looser than the loosest
  rw [Option.eq_none_iff_forall_ne_some]
  intro strength ahead
  exact Nat.not_lt_zero _ (weaker strength ahead)

/-- The tokens of `a = - b - c * d - ! e [ f + g ] == h ;`, with the texts of the binary minus
before `c` and of the star exchanged. -/
def mixedOperators : TokenStream :=
  ⟨[⟨⟨.ident, "a"⟩, ⟨0, 0⟩⟩, ⟨⟨.assign, "="⟩, ⟨0, 0⟩⟩, ⟨⟨.minus, "-"⟩, ⟨0, 0⟩⟩,
    ⟨⟨.ident, "b"⟩, ⟨0, 0⟩⟩, ⟨⟨.minus, "*"⟩, ⟨0, 0⟩⟩, ⟨⟨.ident, "c"⟩, ⟨0, 0⟩⟩,
    ⟨⟨.star, "-"⟩, ⟨0, 0⟩⟩, ⟨⟨.ident, "d"⟩, ⟨0, 0⟩⟩, ⟨⟨.minus, "-"⟩, ⟨0, 0⟩⟩,
    ⟨⟨.bang, "!"⟩, ⟨0, 0⟩⟩, ⟨⟨.ident, "e"⟩, ⟨0, 0⟩⟩, ⟨⟨.lbracket, "["⟩, ⟨0, 0⟩⟩,
    ⟨⟨.ident, "f"⟩, ⟨0, 0⟩⟩, ⟨⟨.plus, "+"⟩, ⟨0, 0⟩⟩, ⟨⟨.ident, "g"⟩, ⟨0, 0⟩⟩,
    ⟨⟨.rbracket, "]"⟩, ⟨0, 0⟩⟩, ⟨⟨.equal, "=="⟩, ⟨0, 0⟩⟩, ⟨⟨.ident, "h"⟩, ⟨0, 0⟩⟩,
    ⟨⟨.semicolon, ";"⟩, ⟨0, 0⟩⟩],
    Token.endAt 0⟩

/-- The tree of `mixedOperators`: the kinds group it, and the texts stay where they are. The prefix
operators belong to one operand each, and the sum is in a subscript. -/
def mixedTree : Expr :=
  .binary "=" (.ident "a")
    (.binary "=="
      (.binary "*" (.prefixOp "-" (.ident "b"))
        (.binary "-" (.binary "-" (.ident "c") (.ident "d"))
          (.prefixOp "!"
            (.subscript (.ident "e") (.binary "+" (.ident "f") (.ident "g"))))))
      (.ident "h"))

set_option maxRecDepth 100000 in
/-- Rising, equal and falling strengths in one expression, with prefix operators and a subscript in
its operands. -/
theorem expr_grouped_mixed :
    (mixedOperators.readExprWithin nestingLimit).result = .ok mixedTree ∧
    ∃ first steps,
      OperandSequence mixedOperators.ahead first steps
        (mixedOperators.readExprWithin nestingLimit).left.ahead ∧
      (first.isUnary = true ∧ ∀ s ∈ steps, s.operand.isUnary = true) ∧
      mixedTree = group first steps ∧
      headKind (mixedOperators.readExprWithin nestingLimit).left.ahead = .semicolon := by
  have accepted : (mixedOperators.readExprWithin nestingLimit).result = .ok mixedTree := by cbv
  have behind : headKind (mixedOperators.readExprWithin nestingLimit).left.ahead = .semicolon := by
    cbv
  obtain ⟨first, steps, sequence, -, unary, grouping, -, -⟩ := expr_grouped _ _ _ accepted
  exact ⟨accepted, first, steps, sequence, unary, grouping, behind⟩

end ProcLang
