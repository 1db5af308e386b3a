import Mathlib
import ProcLang.Proofs.Parse.Locality
import ProcLang.Proofs.Parse.Naturality

/-!
# Lookahead is bounded

A call on a vector of tokens depends on few of them: from the place where it begins on, on
those that it consumes and on the one behind them if it succeeds, and on two more if it is
refused; and never on what stands behind the first end marker (`answer_bounded_lookahead`).
For the parsers over lists this is locality. What is shown here is that vectors which agree
so far have streams which agree as far as the parsers look.
-/

set_option autoImplicit false

namespace ProcLang

/-- The index of the first end marker of a vector. -/
def firstEnd (vector : List Token) : Nat :=
  vector.findIdx (·.kind == .endOfInput)

/-- The last index at which a call may have looked that began at no later one, ended so, and
stopped at `stop`, in a vector whose first end marker is at `finish`. -/
def lastLooked (result : Except SyntaxError Phrase) (stop finish : Nat) : Nat :=
  match result with
  | .ok _ => stop
  | .error _ => min (stop + 2) finish

theorem lastLooked_le {result : Except SyntaxError Phrase} {stop finish : Nat}
    (inside : stop ≤ finish) : lastLooked result stop finish ≤ finish := by
  cases result with
  | ok tree => exact inside
  | error e => exact Nat.min_le_right _ _

/-! ## Vectors and streams -/

/-- Lists that have the same entries at the first `n` indices have the same first entries. -/
theorem take_eq_of_getElem? {γ : Type} {l l' : List γ} {n : Nat}
    (h : ∀ i < n, l'[i]? = l[i]?) : l.take n = l'.take n := by
  apply List.ext_getElem?
  intro i
  rw [List.getElem?_take, List.getElem?_take]
  by_cases inside : i < n
  · rw [if_pos inside, if_pos inside, h i inside]
  · rw [if_neg inside, if_neg inside]

/-- What stands in front of the first end marker within the first `n` tokens. -/
theorem takeWhile_take {ahead : List Token} {finish : Token} (behind : List Token) (n : Nat)
    (proper : ∀ t ∈ ahead, t.kind ≠ .endOfInput) (closed : finish.kind = .endOfInput) :
    ((ahead ++ finish :: behind).take n).takeWhile (·.kind != .endOfInput) = ahead.take n := by
  induction ahead generalizing n with
  | nil =>
      cases n with
      | zero => rfl
      | succ n =>
          apply List.takeWhile_cons_of_neg
          rw [closed]
          decide
  | cons t ahead ih =>
      cases n with
      | zero => rfl
      | succ n =>
          have first : (t.kind != .endOfInput) = true := bne_iff_ne.2 (proper t List.mem_cons_self)
          have others := ih n fun t' mem => proper t' (List.mem_cons_of_mem _ mem)
          rw [List.cons_append, List.take_succ_cons, List.take_succ_cons, List.takeWhile_cons,
            if_pos first, others]

namespace Stands

variable {vector vector' : List Token} {stream stream' : TokenStream} {position n : Nat}

/-- Streams at the same place of vectors that agree there agree as far. -/
theorem take_eq (h : Stands vector stream position) (h' : Stands vector' stream' position)
    (agree : ∀ i, position ≤ i → i < position + n → vector'[i]? = vector[i]?) :
    stream.ahead.take n = stream'.ahead.take n := by
  obtain ⟨behind, htokens⟩ := h.ahead
  obtain ⟨behind', htokens'⟩ := h'.ahead
  have same : (vector.drop position).take n = (vector'.drop position).take n := by
    apply take_eq_of_getElem?
    intro i inside
    rw [List.getElem?_drop, List.getElem?_drop]
    exact agree _ (Nat.le_add_right _ _) (Nat.add_lt_add_left inside _)
  rw [← takeWhile_take behind n h.proper h.closed, ← htokens, same, htokens',
    takeWhile_take behind' n h'.proper h'.closed]

/-- Streams at the same place of vectors that agree up to the end marker are equal as lists:
nothing behind the marker is ahead. -/
theorem take_eq_of_marker (h : Stands vector stream position)
    (h' : Stands vector' stream' position)
    (agree : ∀ i, position ≤ i → i < position + min n (stream.ahead.length + 1) →
      vector'[i]? = vector[i]?) :
    stream.ahead.take n = stream'.ahead.take n := by
  have near := h.take_eq h' agree
  rcases Nat.le_total n (stream.ahead.length + 1) with short | long
  · rw [Nat.min_eq_left short] at near
    exact near
  · rw [Nat.min_eq_right long, List.take_of_length_le (Nat.le_succ _)] at near
    -- the other stream is no longer, or one more of its tokens would be among the first
    have length : stream'.ahead.length ≤ stream.ahead.length + 1 := by
      have lengths := congrArg List.length near
      rw [List.length_take] at lengths
      omega
    rw [List.take_of_length_le length] at near
    rw [near]

/-- The first end marker of the vector is the one behind the stream. -/
theorem firstEnd_eq (h : Stands vector stream position) (start : position ≤ firstEnd vector) :
    firstEnd vector = position + stream.ahead.length := by
  -- none of the tokens before the position is one
  have before : (vector.take position).findIdx (·.kind == .endOfInput) = position := by
    rw [List.findIdx_take]
    exact Nat.min_eq_left start
  have inside : (vector.take position).length = position := by
    rw [List.length_take]
    exact Nat.min_eq_left h.position_lt.le
  have whole := congrArg firstEnd (List.take_append_drop position vector).symm
  rw [whole, firstEnd, List.findIdx_append, before, inside, if_neg (Nat.lt_irrefl _), h.findIdx_drop,
    Nat.add_comm]

end Stands

/-! ## Calls -/

/-- Reads the requested phrase from the tokens ahead. -/
def Request.parser (request : Request) : Parser Phrase :=
  let inner := nestedParsers nestingLimit
  match request with
  | .program => return .program (← inner.program)
  | .decl => return .decl (← inner.declaration)
  | .stmt => return .stmt (← inner.stmt)
  | .expr => return .expr (← inner.expr)

theorem Request.parser_local (request : Request) : request.parser.Local := by
  have related := Parser.local_compatible
  have inner := nestedParsers_related related.toComposable nestingLimit
  cases request with
  | program => exact (related.program inner).bind fun _ => .accept _
  | decl => exact (related.decl inner).bind fun _ => .accept _
  | stmt => exact inner.stmt.bind fun _ => .accept _
  | expr => exact inner.expr.bind fun _ => .accept _

/-- A machine answers as the parser does. -/
theorem Request.follows (vector : List Token) (request : Request) :
    Follows vector 0 (Machine.answer vector request) request.parser := by
  have inner : Nested.Related (fun _ p q => Follows vector 0 p q)
      (nestedMachines vector nestingLimit (nestingLimit + 1)) (nestedParsers nestingLimit) :=
    nestedMachines_related nestingLimit (Nat.zero_add nestingLimit)
  cases request with
  | program => exact (follows_compatible.program inner).bind fun _ => .accept _
  | decl => exact (follows_compatible.decl inner).bind fun _ => .accept _
  | stmt => exact inner.stmt.bind fun _ => .accept _
  | expr => exact inner.expr.bind fun _ => .accept _

theorem Request.consumed_le (request : Request) (ahead : List Token) :
    (request.parser ahead).consumed.length ≤ ahead.length := by
  have lengths := congrArg List.length (request.parser_local.accounts ahead)
  rw [List.length_append] at lengths
  omega

/-- An outcome is a tree or an error, and it does not depend on more than is allowed for. -/
theorem Outcome.result_eq (o : Outcome Phrase) (finish : Token) (position length : Nat) :
    ∃ result : Except SyntaxError Phrase, o.result finish = result.mapError .unexpected ∧
      ∀ i, i < position + min o.looked (length + 1) →
        i ≤ lastLooked result (position + o.consumed.length) (position + length) := by
  unfold Outcome.result Outcome.looked
  cases o.value with
  | some tree =>
      refine ⟨.ok tree, rfl, fun i near => ?_⟩
      replace near : i < position + min (o.consumed.length + 1) (length + 1) := near
      show i ≤ position + o.consumed.length
      omega
  | none =>
      refine ⟨.error _, rfl, fun i near => ?_⟩
      replace near : i < position + min (o.consumed.length + 3) (length + 1) := near
      show i ≤ min (position + o.consumed.length + 2) (position + length)
      omega

section Calls

variable {vector vector' : List Token} {stream : TokenStream} {position : Nat} {request : Request}

/-- A call comes to the outcome of its parser and stops behind the tokens consumed. -/
theorem Stands.answer_eq (stands : Stands vector stream position) (request : Request) :
    Machine.answer vector request ⟨position, 0⟩ =
        ((request.parser stream.ahead).result stream.finish,
          ⟨position + (request.parser stream.ahead).consumed.length, 0⟩) ∧
      Stands vector ⟨(request.parser stream.ahead).rest, stream.finish⟩
        (position + (request.parser stream.ahead).consumed.length) := by
  obtain ⟨consumed, split, run⟩ := request.follows vector stream position stands
  have accounts := request.parser_local.accounts stream.ahead
  obtain rfl : (request.parser stream.ahead).consumed = consumed :=
    List.append_cancel_right (accounts.trans split)
  exact ⟨run, stands.advance split⟩

/-- Calls from the same place of two vectors that agree from there on as far as the first call
may have looked: they have the same result and stop at the same place. -/
theorem Stands.answer_agrees (stands : Stands vector stream position) (closed : Closed vector')
    (agree : ∀ i, position ≤ i →
      i < position + min (request.parser stream.ahead).looked (stream.ahead.length + 1) →
        vector'[i]? = vector[i]?) :
    Machine.answer vector' request ⟨position, 0⟩ = Machine.answer vector request ⟨position, 0⟩ := by
  have ahead := request.consumed_le stream.ahead
  have further : (request.parser stream.ahead).consumed.length + 1 ≤
      (request.parser stream.ahead).looked := Outcome.succ_le_looked (Nat.le_refl _)
  -- the second vector has a stream at the place, and its tokens agree as far
  have inside : position < vector'.length := by
    have found := (agree position (Nat.le_refl _) (by omega)).trans stands.getElem?_eq
    exact (List.getElem?_eq_some_iff.1 found).1
  have stands' := closed.stands inside
  obtain ⟨value, consumed⟩ :=
    request.parser_local.window _ _ (stands.take_eq_of_marker stands' agree)
  obtain ⟨run, left⟩ := stands.answer_eq request
  obtain ⟨run', left'⟩ := stands'.answer_eq request
  rw [run, run', consumed]
  rw [consumed] at left'
  refine congrArg (·, _) ?_
  rw [Outcome.result, Outcome.result, value]
  cases (request.parser stream.ahead).value with
  | some tree => rfl
  | none =>
      -- the refused token is among those that agree
      have current := (agree _ (Nat.le_add_right _ _) (by omega)).symm.trans left'.getElem?_eq
      rw [left.getElem?_eq] at current
      unfold TokenStream.unexpected
      rw [Option.some.inj current]

end Calls

theorem Closed.firstEnd_lt {vector : List Token} (closed : Closed vector) :
    firstEnd vector < vector.length := by
  obtain ⟨t, last, kind⟩ := Option.map_eq_some_iff.1 closed
  exact List.findIdx_lt_length.2 ⟨t, List.mem_of_getLast? last, beq_iff_eq.2 kind⟩

/-- How far a call looks ahead. From any place that is not behind the first end marker, it
gives a tree or refuses a token, and stops no further than at the marker. And it does the same
on any other vector that has the same tokens from that place on, up to and including the one
at which it stopped, if it gave a tree, or the second behind that one or the first end marker,
whichever comes first, if it refused. What stands behind the first end marker never matters. -/
theorem answer_bounded_lookahead (vector : List Token) (closed : Closed vector) (position : Nat)
    (start : position ≤ firstEnd vector) (request : Request) :
    ∃ (result : Except SyntaxError Phrase) (stop : Nat),
      Machine.answer vector request ⟨position, 0⟩ = (result.mapError .unexpected, ⟨stop, 0⟩) ∧
      position ≤ stop ∧ stop ≤ firstEnd vector ∧
      (∀ vector', Closed vector' →
        (∀ i, position ≤ i → i ≤ lastLooked result stop (firstEnd vector) →
          vector'[i]? = vector[i]?) →
        Machine.answer vector' request ⟨position, 0⟩ =
          (result.mapError .unexpected, ⟨stop, 0⟩)) ∧
      ∀ vector', Closed vector' →
        (∀ i, position ≤ i → i ≤ firstEnd vector → vector'[i]? = vector[i]?) →
        Machine.answer vector' request ⟨position, 0⟩ =
          (result.mapError .unexpected, ⟨stop, 0⟩) := by
  obtain ⟨stream, stands⟩ : ∃ stream, Stands vector stream position :=
    ⟨_, closed.stands (Nat.lt_of_le_of_lt start closed.firstEnd_lt)⟩
  obtain ⟨run, -⟩ := stands.answer_eq request
  obtain ⟨result, ending, far⟩ := (request.parser stream.ahead).result_eq stream.finish position
    stream.ahead.length
  have stop := Nat.add_le_add_left (request.consumed_le stream.ahead) position
  rw [← stands.firstEnd_eq start] at far stop
  rw [ending] at run
  have same (vector' : List Token) (closed' : Closed vector')
      (agree : ∀ i, position ≤ i → i ≤ lastLooked result _ (firstEnd vector) →
        vector'[i]? = vector[i]?) :=
    (stands.answer_agrees closed' fun i behind near => agree i behind (far i near)).trans run
  refine ⟨result, _, run, Nat.le_add_right _ _, stop, same, fun vector' closed' agree => ?_⟩
  exact same vector' closed' fun i behind near =>
    agree i behind (Nat.le_trans near (lastLooked_le stop))

/-- The tokens of `int * 5 + x )`. -/
def sumBehindStar : List Token :=
  [⟨⟨.typeName, "int"⟩, ⟨0, 3⟩⟩, ⟨⟨.star, "*"⟩, ⟨4, 5⟩⟩, ⟨⟨.intLit, "5"⟩, ⟨6, 7⟩⟩,
    ⟨⟨.plus, "+"⟩, ⟨8, 9⟩⟩, ⟨⟨.ident, "x"⟩, ⟨10, 11⟩⟩, ⟨⟨.rparen, ")"⟩, ⟨12, 13⟩⟩]

set_option maxRecDepth 100000 in
/-- A declaration at the type is refused after a look at the number, and the sum behind it is
read with a look at the parenthesis; so what follows the parenthesis does not matter. -/
theorem answer_bounded_lookahead_sum :
    ∃ e tree,
      Machine.answer (sumBehindStar ++ [⟨⟨.plusPlus, "++"⟩, ⟨14, 16⟩⟩, Token.endAt 16]) .decl
        ⟨0, 0⟩ = (.error (.unexpected e), ⟨0, 0⟩) ∧
      Machine.answer (sumBehindStar ++ [⟨⟨.plusPlus, "++"⟩, ⟨14, 16⟩⟩, Token.endAt 16]) .expr
        ⟨2, 0⟩ = (.ok tree, ⟨5, 0⟩) := by
  have closed : Closed (sumBehindStar ++ [Token.endAt 13]) := rfl
  have closed' : Closed (sumBehindStar ++ [⟨⟨.plusPlus, "++"⟩, ⟨14, 16⟩⟩, Token.endAt 16]) := rfl
  have common (i : Nat) (front : i ≤ 5) :
      (sumBehindStar ++ [⟨⟨.plusPlus, "++"⟩, ⟨14, 16⟩⟩, Token.endAt 16])[i]? =
        (sumBehindStar ++ [Token.endAt 13])[i]? := by
    have inside : i < sumBehindStar.length := Nat.lt_succ_of_le front
    rw [List.getElem?_append_left inside, List.getElem?_append_left inside]
  obtain ⟨result, stop, run, -, -, near, -⟩ :=
    answer_bounded_lookahead _ closed 0 (Nat.zero_le _) .decl
  obtain ⟨result', stop', run', -, -, near', -⟩ :=
    answer_bounded_lookahead _ closed 2 (by decide) .expr
  -- the outcomes on the shorter vector: a refusal in place, and a tree behind three tokens
  have value : (Request.parser .decl (TokenStream.ofTokens
    ((sumBehindStar ++ [Token.endAt 13]).drop 0)).ahead).value = none := by cbv
  have consumed : (Request.parser .decl (TokenStream.ofTokens
    ((sumBehindStar ++ [Token.endAt 13]).drop 0)).ahead).consumed.length = 0 := by cbv
  have value' : (Request.parser .expr (TokenStream.ofTokens
    ((sumBehindStar ++ [Token.endAt 13]).drop 2)).ahead).value =
      some (.expr (.binary "+" (.literal .int "5") (.ident "x"))) := by cbv
  have consumed' : (Request.parser .expr (TokenStream.ofTokens
    ((sumBehindStar ++ [Token.endAt 13]).drop 2)).ahead).consumed.length = 3 := by cbv
  have answered := ((closed.stands (by decide : 0 < _)).answer_eq .decl).1
  have answered' := ((closed.stands (by decide : 2 < _)).answer_eq .expr).1
  rw [answered, consumed, Outcome.result, value] at run
  rw [answered', consumed', Outcome.result, value'] at run'
  obtain ⟨refused, place⟩ := Prod.mk.inj run
  obtain ⟨accepted, place'⟩ := Prod.mk.inj run'
  cases result with
  | ok tree => cases refused
  | error e =>
      cases result' with
      | error e' => cases accepted
      | ok tree =>
          cases place
          cases place'
          refine ⟨e, tree, near _ closed' fun i _ le => common i ?_,
            near' _ closed' fun i _ le => common i le⟩
          exact Nat.le_trans (Nat.le_trans le (Nat.min_le_left _ _)) (by decide)

end ProcLang
