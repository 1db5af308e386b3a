import ProcLang.Parse.Compatible
import ProcLang.Parse.Machine

/-!
# Machines follow parsers, and go on where they stopped

A machine that stands at a place in its vector does what the parser over a list does on
the tokens ahead of that place, up to the first end marker: the same value or the same
error, and as many tokens consumed (`Follows`). The relation is kept by every way of
reading, so it holds of the whole grammar. As nothing before the place is looked at, a
call goes on exactly as on a new machine for the rest of the vector.
-/

set_option autoImplicit false

namespace ProcLang

/-- The vector has the tokens of the stream at `position`, none of them an end marker, and
then the end marker of the stream. -/
structure Stands (vector : List Token) (stream : TokenStream) (position : Nat) : Prop where
  ahead : ∃ behind, vector.drop position = stream.ahead ++ stream.finish :: behind
  proper : ∀ t ∈ stream.ahead, t.kind ≠ .endOfInput
  closed : stream.finish.kind = .endOfInput

namespace Stands

variable {vector rest consumed : List Token} {stream : TokenStream} {position : Nat}

/-- The current token of the stream is the one at the position. -/
theorem getElem?_eq (h : Stands vector stream position) :
    vector[position]? = some stream.current := by
  obtain ⟨behind, htokens⟩ := h.ahead
  have first : (vector.drop position)[0]? = vector[position]? := by
    rw [List.getElem?_drop, Nat.add_zero]
  rw [← first, htokens, TokenStream.current]
  cases stream.ahead with
  | nil => rfl
  | cons t ts => rfl

theorem position_lt (h : Stands vector stream position) : position < vector.length := by
  obtain ⟨t, ht⟩ : ∃ t, vector[position]? = some t := ⟨_, h.getElem?_eq⟩
  exact (List.getElem?_eq_some_iff.1 ht).1

/-- From the position on, the first end marker is the one behind the stream. -/
theorem findIdx_drop (h : Stands vector stream position) :
    (vector.drop position).findIdx (·.kind == .endOfInput) = stream.ahead.length := by
  obtain ⟨behind, htokens⟩ := h.ahead
  have none_ahead : stream.ahead.findIdx (·.kind == .endOfInput) = stream.ahead.length := by
    apply List.findIdx_eq_length.2
    intro t mem
    exact beq_false_of_ne (h.proper t mem)
  have marker_first : stream.finish.kind == .endOfInput := beq_iff_eq.2 h.closed
  rw [htokens, List.findIdx_append, none_ahead, if_neg (Nat.lt_irrefl _), List.findIdx_cons,
    marker_first]
  exact Nat.zero_add _

/-- Behind consumed tokens the vector has the rest of the stream. -/
theorem advance (h : Stands vector stream position) (split : stream.ahead = consumed ++ rest) :
    Stands vector ⟨rest, stream.finish⟩ (position + consumed.length) := by
  obtain ⟨behind, htokens⟩ := h.ahead
  refine ⟨⟨behind, ?_⟩, fun t ht => h.proper t ?_, h.closed⟩
  · rw [← List.drop_drop, htokens, split, List.append_assoc, List.drop_left]
  · rw [split]
    exact List.mem_append_right _ ht

end Stands

/-- The result that a machine gives where a parser over a list comes to an outcome. -/
def Outcome.result {α : Type} (o : Outcome α) (finish : Token) : Except Halt α :=
  match o.value with
  | some a => .ok a
  | none => .error (.unexpected (TokenStream.unexpected ⟨o.rest, finish⟩))

/-- With `depth` levels open before and after it, the machine does what the parser does:
it gives the same result and consumes the same tokens. -/
def Follows (vector : List Token) (depth : Nat) {α : Type} (p : Machine vector α)
    (q : Parser α) : Prop :=
  ∀ stream position, Stands vector stream position →
    ∃ consumed, stream.ahead = consumed ++ (q stream.ahead).rest ∧
      p ⟨position, depth⟩ =
        ((q stream.ahead).result stream.finish, ⟨position + consumed.length, depth⟩)

namespace Follows

open TokenReader

variable {vector : List Token} {depth : Nat} {α β σ : Type}

theorem accept (a : α) : Follows vector depth (pure a) (pure a) := by
  intro stream position _
  exact ⟨[], rfl, rfl⟩

theorem current {stream : TokenStream} {position : Nat} (h : Stands vector stream position) :
    (Machine.current : Machine vector Token) ⟨position, depth⟩ =
      (.ok stream.current, ⟨position, depth⟩) := by
  unfold Machine.current
  rw [h.getElem?_eq]

theorem refuse_eq {stream : TokenStream} {position : Nat} (h : Stands vector stream position) :
    (TokenReader.refuse : Machine vector α) ⟨position, depth⟩ =
      (.error (.unexpected stream.unexpected), ⟨position, depth⟩) :=
  Machine.bind_ok (current h)

theorem refuse : Follows vector depth (TokenReader.refuse : Machine vector α) TokenReader.refuse := by
  intro stream position h
  exact ⟨[], rfl, refuse_eq h⟩

theorem noteDeclaration :
    Follows vector depth TokenReader.noteDeclaration TokenReader.noteDeclaration := by
  intro stream position h
  exact ⟨[], rfl, Machine.bind_ok (current h)⟩

/-- The kind of the current token of a stream is that of its first token or the end. -/
theorem kind_current {stream : TokenStream} {position : Nat} (h : Stands vector stream position) :
    stream.current.kind = headKind stream.ahead := by
  unfold TokenStream.current headKind
  cases stream.ahead with
  | nil => exact h.closed
  | cons t ts => rfl

theorem kindAhead_eq {stream : TokenStream} {position : Nat} (h : Stands vector stream position) :
    (TokenReader.kindAhead : Machine vector TokenKind) ⟨position, depth⟩ =
      (.ok (headKind stream.ahead), ⟨position, depth⟩) := by
  rw [← kind_current h]
  exact Machine.bind_ok (current h)

theorem kindAhead : Follows vector depth TokenReader.kindAhead TokenReader.kindAhead := by
  intro stream position h
  exact ⟨[], rfl, kindAhead_eq h⟩

/-- Comparing kinds by index is comparing the kinds of the tokens from there on. -/
theorem all_zipIdx_eq (pattern : List TokenKind) (l : List Token) (k : Nat) :
    (pattern.zipIdx k).all (fun (kind, i) => l[i]?.any (·.kind == kind)) =
      pattern.isPrefixOf ((l.drop k).map (·.kind)) := by
  induction pattern generalizing k with
  | nil => rfl
  | cons kind pattern ih =>
      have first : l[k]? = (l.drop k)[0]? := by
        rw [List.getElem?_drop, Nat.add_zero]
      rw [List.zipIdx_cons, List.all_cons, ih (k + 1), ← List.drop_drop]
      show (Option.any _ l[k]? && _) = _
      rw [first]
      cases l.drop k with
      | nil => rfl
      | cons t ts =>
          show (t.kind == kind && _) = (kind == t.kind && _)
          rw [Bool.beq_comm]
          rfl

/-- A pattern without the end marker fits no further than to the first one. -/
theorem isPrefixOf_closed {pattern : List TokenKind} (proper : .endOfInput ∉ pattern)
    (ahead : List Token) {finish : Token} (closed : finish.kind = .endOfInput)
    (behind : List Token) :
    pattern.isPrefixOf ((ahead ++ finish :: behind).map (·.kind)) =
      ((ahead.take pattern.length).map (·.kind) == pattern) := by
  induction pattern generalizing ahead with
  | nil => rfl
  | cons kind pattern ih =>
      have different : kind ≠ .endOfInput := fun same => proper (same ▸ List.mem_cons_self)
      have proper' : .endOfInput ∉ pattern := fun mem => proper (List.mem_cons_of_mem _ mem)
      cases ahead with
      | nil =>
          show (kind == finish.kind && _) = false
          rw [closed, beq_false_of_ne different]
          rfl
      | cons t ts =>
          show (kind == t.kind && _) = (t.kind == kind && _)
          rw [Bool.beq_comm]
          exact congrArg _ (ih proper' ts)

theorem lookingAt (pattern : List TokenKind) (proper : .endOfInput ∉ pattern) :
    Follows vector depth (TokenReader.lookingAt pattern) (TokenReader.lookingAt pattern) := by
  intro stream position h
  obtain ⟨behind, htokens⟩ := h.ahead
  refine ⟨[], rfl, ?_⟩
  have same : (pattern.zipIdx.all fun (kind, i) => vector[position + i]?.any (·.kind == kind)) =
      ((stream.ahead.take pattern.length).map (·.kind) == pattern) := by
    rw [← isPrefixOf_closed proper stream.ahead h.closed behind, ← htokens]
    simp only [← List.getElem?_drop]
    exact all_zipIdx_eq pattern (vector.drop position) 0
  show (Except.ok _, _) = (Except.ok _, _)
  rw [same]
  rfl

theorem bind {p : Machine vector α} {q : Parser α} {f : α → Machine vector β}
    {g : α → Parser β} (hp : Follows vector depth p q)
    (hf : ∀ a, Follows vector depth (f a) (g a)) : Follows vector depth (p >>= f) (q >>= g) := by
  intro stream position h
  obtain ⟨consumed, split, run⟩ := hp stream position h
  cases hvalue : (q stream.ahead).value with
  | none =>
      simp only [Outcome.result, hvalue] at run
      rw [Parser.bind_none hvalue, Machine.bind_error run]
      exact ⟨consumed, split, rfl⟩
  | some a =>
      obtain ⟨further, split', run'⟩ := hf a _ _ (h.advance split)
      simp only [Outcome.result, hvalue] at run
      rw [Parser.bind_some hvalue, Machine.bind_ok run]
      refine ⟨consumed ++ further, ?_, ?_⟩
      · rw [List.append_assoc]
        exact split.trans (congrArg _ split')
      · rw [List.length_append, ← Nat.add_assoc]
        exact run'

/-- A token that is there is consumed. -/
theorem advance {stream : TokenStream} {position : Nat} (h : Stands vector stream position)
    {t : Token} {ts : List Token} (hahead : stream.ahead = t :: ts) :
    (TokenReader.advance : Machine vector String) ⟨position, depth⟩ =
      (.ok t.text, ⟨position + 1, depth⟩) := by
  have found : vector[position]? = some t := by
    rw [h.getElem?_eq, TokenStream.current, hahead]
    rfl
  have proper : t.kind ≠ .endOfInput := by
    apply h.proper t
    rw [hahead]
    exact List.mem_cons_self
  show Machine.advance _ = _
  unfold Machine.advance
  rw [found]
  show (Except.ok t.text, if t.kind = .endOfInput then _ else _) = _
  rw [if_neg proper]

/-- Both readers go the way that the current kind chooses. The end marker is never
accepted, so where one is consumed there is a token ahead. -/
theorem choose {accepts : TokenKind → Option β} {taken : β → String → Machine vector α}
    {taken' : β → String → Parser α} {otherwise : Machine vector α} {otherwise' : Parser α}
    (proper : accepts .endOfInput = none)
    (htaken : ∀ b text, Follows vector depth (taken b text) (taken' b text))
    (hotherwise : Follows vector depth otherwise otherwise') :
    Follows vector depth (TokenReader.choose accepts taken otherwise)
      (TokenReader.choose accepts taken' otherwise') := by
  intro stream position h
  have chosen : (TokenReader.choose accepts taken otherwise : Machine vector α) ⟨position, depth⟩ =
      (match accepts (headKind stream.ahead) with
        | some b => TokenReader.advance >>= taken b
        | none => otherwise : Machine vector α) ⟨position, depth⟩ :=
    Machine.bind_ok (kindAhead_eq h)
  have chosen' : (TokenReader.choose accepts taken' otherwise' : Parser α) stream.ahead =
      (match accepts (headKind stream.ahead) with
        | some b => TokenReader.advance >>= taken' b
        | none => otherwise' : Parser α) stream.ahead := rfl
  rw [chosen, chosen']
  -- where a kind is accepted, it is that of a token ahead: the end marker is never accepted
  cases hkind : accepts (headKind stream.ahead) with
  | none => exact hotherwise stream position h
  | some b =>
      cases hahead : stream.ahead with
      | nil =>
          rw [hahead] at hkind
          exact absurd (proper.symm.trans hkind) (Option.some_ne_none b).symm
      | cons t ts =>
          have first : stream.ahead = [t] ++ ts := hahead
          obtain ⟨consumed, split, run⟩ := htaken b t.text _ _ (h.advance first)
          refine ⟨t :: consumed, congrArg (t :: ·) split, ?_⟩
          rw [List.length_cons, Nat.add_comm consumed.length, ← Nat.add_assoc]
          exact (Machine.bind_ok (advance h hahead)).trans run

/-- Both readers count the same rounds as progress: those that consume a token. -/
theorem progress_iff {stream : TokenStream} {position : Nat} {consumed rest : List Token}
    (h : Stands vector stream position) (split : stream.ahead = consumed ++ rest) :
    vector.length - (position + consumed.length) < vector.length - position ↔
      rest.length < stream.ahead.length := by
  have inside : position + consumed.length < vector.length := (h.advance split).position_lt
  rw [split, List.length_append]
  omega

theorem loop {round : σ → Machine vector (Round σ α)} {round' : σ → Parser (Round σ α)}
    (hround : ∀ s, Follows vector depth (round s) (round' s)) (s : σ) :
    Follows vector depth (TokenReader.loop round s) (TokenReader.loop round' s) := by
  intro stream position h
  show ∃ all, stream.ahead = all ++ (Parser.iterate round' s stream.ahead).rest ∧
    Machine.iterate round s ⟨position, depth⟩ =
      ((Parser.iterate round' s stream.ahead).result stream.finish, _)
  generalize hahead : stream.ahead = ts
  -- The induction is on the tokens ahead; the place moves along with them.
  fun_induction Parser.iterate round' s ts generalizing stream position with
  | case1 s ts first hvalue =>
      subst hahead
      obtain ⟨consumed, split, run⟩ := hround s stream position h
      refine ⟨consumed, split, ?_⟩
      rw [Machine.iterate, run]
      simp only [Outcome.result, first, hvalue]
  | case2 s ts first a hvalue =>
      subst hahead
      obtain ⟨consumed, split, run⟩ := hround s stream position h
      refine ⟨consumed, split, ?_⟩
      rw [Machine.iterate, run]
      simp only [Outcome.result, first, hvalue]
  | case3 s ts first next hvalue shorter others ih =>
      subst hahead
      obtain ⟨consumed, split, run⟩ := hround s stream position h
      obtain ⟨further, split', run'⟩ := ih _ _ (h.advance split) rfl
      refine ⟨consumed ++ further, ?_, ?_⟩
      · rw [List.append_assoc]
        exact split.trans (congrArg _ split')
      · rw [Machine.iterate, run, List.length_append, ← Nat.add_assoc]
        simp only [Outcome.result, first, hvalue]
        rw [if_pos ((progress_iff h split).2 shorter)]
        exact run'
  | case4 s ts first next hvalue stuck =>
      subst hahead
      obtain ⟨consumed, split, run⟩ := hround s stream position h
      refine ⟨consumed, split, ?_⟩
      rw [Machine.iterate, run]
      simp only [Outcome.result, first, hvalue]
      rw [if_neg (mt (progress_iff h split).1 stuck)]
      exact refuse_eq (h.advance split)

end Follows

section Grammar

variable {vector : List Token} {depth limit : Nat}

theorem follows_compatible :
    @Compatible (Machine vector) Parser _ _ fun _ p q => Follows vector depth p q :=
  Primitive.compatible
    { pure := Follows.accept
      refuse := Follows.refuse
      kindAhead := Follows.kindAhead
      noteDeclaration := Follows.noteDeclaration
      lookingAt := Follows.lookingAt
      bind := Follows.bind
      choose := Follows.choose
      loop := Follows.loop }

/-- A level that is opened is closed again, whether the phrase in it was read or not. -/
theorem Follows.deeper {α : Type} {p : Machine vector α} {q : Parser α} (room : depth < limit)
    (h : Follows vector (depth + 1) p q) : Follows vector depth (p.deeper limit) q := by
  intro stream position stands
  obtain ⟨consumed, split, run⟩ := h stream position stands
  refine ⟨consumed, split, ?_⟩
  unfold Machine.deeper
  rw [if_neg (Nat.not_le.2 room), run]
  rfl

/-- With all levels open, whatever comes is refused. -/
theorem Follows.deeper_limit {α : Type} (p : Machine vector α) :
    Follows vector limit (p.deeper limit) TokenReader.refuse := by
  intro stream position stands
  refine ⟨[], rfl, ?_⟩
  unfold Machine.deeper
  rw [if_pos (Nat.le_refl limit)]
  exact Follows.refuse_eq stands

/-- A machine that has opened `depth` levels follows the parsers for the levels that are
left. -/
theorem nestedMachines_related (n : Nat) (h : depth + n = limit) :
    Nested.Related (fun _ p q => Follows vector depth p q) (nestedMachines vector limit (n + 1))
      (nestedParsers n) := by
  induction n generalizing depth with
  | zero =>
      obtain rfl : depth = limit := h
      exact ⟨fun least => .deeper_limit ((nestedMachines vector depth 0).operatorExpr least),
        .deeper_limit (nestedMachines vector depth 0).unaryExpr,
        .deeper_limit (nestedMachines vector depth 0).statement⟩
  | succ n ih =>
      have room : depth < limit := by omega
      have inner := ih (show depth + 1 + n = limit by omega)
      exact ⟨fun least => .deeper room (follows_compatible.operatorExpr inner least),
        .deeper room (follows_compatible.unaryExpr inner),
        .deeper room (follows_compatible.statement inner)⟩

end Grammar

/-! ## Calls -/

section Calls

variable {vector : List Token} {stream : TokenStream} {position : Nat}

/-- A machine that follows a parser gives the parser's reading of the stream, and leaves
the level at which it began. -/
theorem Follows.reading {α β : Type} {p : Machine vector α} {q : Parser α}
    (h : Follows vector 0 p q) (f : α → β) (stands : Stands vector stream position) :
    ∃ consumed, stream.ahead = consumed ++ (q.read stream).left.ahead ∧
      (do return f (← p) : Machine vector β) ⟨position, 0⟩ =
        (((q.read stream).map f).result.mapError .unexpected,
          ⟨position + consumed.length, 0⟩) := by
  obtain ⟨consumed, split, run⟩ := h stream position stands
  refine ⟨consumed, ?_, ?_⟩
  · rw [Parser.read_left]
    exact split
  · cases hvalue : (q stream.ahead).value with
    | none =>
        simp only [Outcome.result, hvalue] at run
        rw [Machine.bind_error run]
        simp only [Reading.map, Parser.read, hvalue]
        rfl
    | some a =>
        simp only [Outcome.result, hvalue] at run
        rw [Machine.bind_ok run]
        simp only [Reading.map, Parser.read, hvalue]
        rfl

theorem Parser.read_finish {α : Type} (q : Parser α) (stream : TokenStream) :
    (q.read stream).left.finish = stream.finish := by
  rw [Parser.read_left]

/-- No call replaces the end marker. -/
theorem answer_finish (stream : TokenStream) (request : Request) :
    (stream.answer request).left.finish = stream.finish := by
  cases request with
  | program => exact Parser.read_finish _ stream
  | decl => exact Parser.read_finish _ stream
  | stmt => exact Parser.read_finish _ stream
  | expr => exact Parser.read_finish _ stream

/-- One call: the machine answers as the stream does, and consumes as much. -/
theorem answer_eq (stands : Stands vector stream position) (request : Request) :
    ∃ consumed, stream.ahead = consumed ++ (stream.answer request).left.ahead ∧
      Machine.answer vector request ⟨position, 0⟩ =
        ((stream.answer request).result.mapError .unexpected,
          ⟨position + consumed.length, 0⟩) := by
  have inner : Nested.Related (fun _ p q => Follows vector 0 p q)
      (nestedMachines vector nestingLimit (nestingLimit + 1)) (nestedParsers nestingLimit) :=
    nestedMachines_related nestingLimit (Nat.zero_add nestingLimit)
  cases request with
  | program => exact (follows_compatible.program inner).reading Phrase.program stands
  | decl => exact (follows_compatible.decl inner).reading Phrase.decl stands
  | stmt => exact inner.stmt.reading Phrase.stmt stands
  | expr => exact inner.expr.reading Phrase.expr stands

/-- The stream left by a call is what the machine then stands at. -/
theorem Stands.answer (stands : Stands vector stream position) (request : Request)
    {consumed : List Token} (split : stream.ahead = consumed ++ (stream.answer request).left.ahead) :
    Stands vector (stream.answer request).left (position + consumed.length) := by
  have moved := stands.advance split
  rw [← answer_finish stream request] at moved
  exact moved

end Calls

/-! ## Sessions -/

/-- The stream that a sequence of requests leaves. -/
def TokenStream.leftAfter (stream : TokenStream) (requests : List Request) : TokenStream :=
  requests.foldl (fun left request => (left.answer request).left) stream

theorem TokenStream.leftAfter_concat (stream : TokenStream) (earlier : List Request)
    (request : Request) : stream.leftAfter (earlier ++ [request]) =
      ((stream.leftAfter earlier).answer request).left :=
  List.foldl_append

theorem TokenStream.session_concat (stream : TokenStream) (earlier : List Request)
    (request : Request) :
    stream.session (earlier ++ [request]) =
      stream.session earlier ++ [((stream.leftAfter earlier).answer request).result] := by
  induction earlier generalizing stream with
  | nil => rfl
  | cons first earlier ih => exact congrArg (_ :: ·) (ih _)

/-- A machine has come to a place in step with a stream: no level is open, the tokens of
the stream are ahead of it, and the first end marker of the vector is behind them. -/
structure Reached (vector : List Token) (cursor : Cursor) (stream : TokenStream) : Prop where
  levels : cursor.depth = 0
  stands : Stands vector stream cursor.position
  ended : cursor.position + stream.ahead.length = vector.findIdx (·.kind == .endOfInput)

/-- The step of a session. -/
theorem Reached.answer {vector : List Token} {cursor : Cursor} {stream : TokenStream}
    (h : Reached vector cursor stream) (request : Request) :
    Reached vector (Machine.answer vector request cursor).2 (stream.answer request).left := by
  obtain ⟨position, depth⟩ := cursor
  obtain rfl : depth = 0 := h.levels
  obtain ⟨consumed, split, run⟩ := answer_eq h.stands request
  have ended : position + stream.ahead.length = _ := h.ended
  rw [run]
  refine ⟨rfl, h.stands.answer request split, ?_⟩
  show position + consumed.length + _ = _
  rw [← ended, split, List.length_append, Nat.add_assoc]

/-- The run of a session. -/
theorem Reached.cursorAfter {vector : List Token} {stream : TokenStream}
    (h : Reached vector .start stream) (requests : List Request) :
    Reached vector (Machine.cursorAfter vector requests) (stream.leftAfter requests) := by
  unfold Machine.cursorAfter TokenStream.leftAfter
  generalize Cursor.start = cursor at h ⊢
  induction requests generalizing cursor stream with
  | nil => exact h
  | cons request requests ih => exact ih _ (h.answer request)

/-- What closes the tokens depends on the last one only. -/
theorem closingMarker_cons {t : Token} (proper : t.kind ≠ .endOfInput) (fallback : Nat)
    (ts : List Token) : closingMarker fallback (t :: ts) = closingMarker t.span.stop ts := by
  unfold closingMarker
  cases ts with
  | nil => exact if_neg proper
  | cons t' ts =>
      rw [List.getLast?_cons_cons, List.getLast?_cons]

/-- The vector begins with the tokens of its stream and the end marker that closes it. -/
theorem ofTokensFrom_stands (fallback : Nat) (tokens : List Token) :
    Stands (tokens ++ closingMarker fallback tokens) (TokenStream.ofTokensFrom fallback tokens)
      0 := by
  induction tokens generalizing fallback with
  | nil => exact ⟨⟨[], rfl⟩, fun t mem => absurd mem List.not_mem_nil, rfl⟩
  | cons t ts ih =>
      unfold TokenStream.ofTokensFrom
      by_cases last : t.kind = .endOfInput
      · rw [if_pos last]
        exact ⟨⟨_, rfl⟩, fun t mem => absurd mem List.not_mem_nil, last⟩
      · rw [if_neg last, closingMarker_cons last]
        obtain ⟨⟨behind, htokens⟩, proper, closed⟩ := ih t.span.stop
        refine ⟨⟨behind, congrArg (t :: ·) htokens⟩, ?_, closed⟩
        intro t' mem
        rcases List.mem_cons.1 mem with rfl | mem
        · exact last
        · exact proper t' mem

theorem reached_start (tokens : List Token) :
    Reached (closeTokens tokens) .start (TokenStream.ofTokens tokens) := by
  have stands : Stands (closeTokens tokens) (TokenStream.ofTokens tokens) 0 :=
    ofTokensFrom_stands 0 tokens
  refine ⟨rfl, stands, ?_⟩
  show 0 + _ = _
  rw [Nat.zero_add, ← stands.findIdx_drop, List.drop_zero]

/-- The last token of the vector is an end marker. -/
theorem closeTokens_getLast? (tokens : List Token) :
    ∃ t, (closeTokens tokens).getLast? = some t ∧ t.kind = .endOfInput := by
  unfold closeTokens closingMarker
  cases hlast : tokens.getLast? with
  | none => exact ⟨Token.endAt 0, List.getLast?_concat, rfl⟩
  | some t =>
      by_cases closed : t.kind = .endOfInput
      · refine ⟨t, ?_, closed⟩
        simp only [closed, if_true, List.append_nil, hlast]
      · refine ⟨Token.endAt t.span.stop, ?_, rfl⟩
        simp only [closed, if_false, List.getLast?_concat]

/-- What is left of a closed vector is closed. -/
theorem closeTokens_drop {tokens : List Token} {position : Nat}
    (inside : position < (closeTokens tokens).length) :
    closeTokens ((closeTokens tokens).drop position) = (closeTokens tokens).drop position := by
  obtain ⟨t, last, closed⟩ := closeTokens_getLast? tokens
  have last' : ((closeTokens tokens).drop position).getLast? = some t := by
    rw [List.getLast?_drop, if_neg (Nat.not_le.2 inside), last]
  have marker : closingMarker 0 ((closeTokens tokens).drop position) = [] := by
    unfold closingMarker
    rw [last']
    exact if_pos closed
  show _ ++ closingMarker 0 _ = _
  rw [marker, List.append_nil]

/-- Every call of a session on any tokens, after any calls before it, well ended or not,
begins and ends with no level open, at a place that is at or before the first end marker
and not before the place where the last call ended. It neither reads behind the vector
nor runs out of machines, a new machine for the tokens from its place on gives the same
answer and consumes as many tokens, and so does the session on the stream. -/
theorem call_resumes (tokens : List Token) (earlier : List Request) (request : Request) :
    ∃ position consumed, ∃ result : Except SyntaxError Phrase,
      Machine.cursorAfter (closeTokens tokens) earlier = ⟨position, 0⟩ ∧
      Machine.answer (closeTokens tokens) request ⟨position, 0⟩ =
        (result.mapError .unexpected, ⟨position + consumed, 0⟩) ∧
      position + consumed ≤ (closeTokens tokens).findIdx (·.kind == .endOfInput) ∧
      (closeTokens tokens).findIdx (·.kind == .endOfInput) < (closeTokens tokens).length ∧
      Machine.answer (closeTokens ((closeTokens tokens).drop position)) request .start =
        (result.mapError .unexpected, ⟨consumed, 0⟩) ∧
      ((TokenStream.ofTokens tokens).session (earlier ++ [request])).getLast? = some result ∧
      ((TokenStream.ofTokens tokens).leftAfter earlier).ahead.length =
        consumed + ((TokenStream.ofTokens tokens).leftAfter (earlier ++ [request])).ahead.length := by
  have before := (reached_start tokens).cursorAfter earlier
  have after := before.answer request
  generalize hcursor : Machine.cursorAfter (closeTokens tokens) earlier = cursor at before after
  obtain ⟨position, depth⟩ := cursor
  obtain rfl : depth = 0 := before.levels
  obtain ⟨consumed, split, run⟩ := answer_eq before.stands request
  have stands : Stands ((closeTokens tokens).drop position) _ 0 :=
    ⟨before.stands.ahead, before.stands.proper, before.stands.closed⟩
  -- the new machine stands at the same stream, so it consumes the same part of it
  obtain ⟨consumed', split', run'⟩ := answer_eq stands request
  have same : consumed'.length = consumed.length := by
    have lengths := congrArg List.length (split'.symm.trans split)
    rw [List.length_append, List.length_append] at lengths
    omega
  rw [run] at after
  refine ⟨position, consumed.length, _, rfl, run, ?_, ?_, ?_, ?_, ?_⟩
  · rw [← after.ended]
    exact Nat.le_add_right _ _
  · rw [List.findIdx_lt_length]
    obtain ⟨t, last, closed⟩ := closeTokens_getLast? tokens
    exact ⟨t, List.mem_of_getLast? last, beq_iff_eq.2 closed⟩
  · rw [closeTokens_drop before.stands.position_lt]
    rw [same, Nat.zero_add] at run'
    exact run'
  · rw [TokenStream.session_concat, List.getLast?_concat]
  · rw [TokenStream.leftAfter_concat, ← List.length_append, ← split]

end ProcLang
