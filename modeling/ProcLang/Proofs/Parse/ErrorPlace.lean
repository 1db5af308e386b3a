import Mathlib
import ProcLang.Proofs.Parse.Acceptance
import ProcLang.Proofs.Parse.Locality

/-!
# The place of a syntax error

A refused source is refused at a token up to which it could still have become a program,
and the next three tokens, the refused one first, show that it cannot: no well-formed
program has lexemes that begin so (`error_place`). The first half is the soundness of the
parsers, which tell what a refusal has begun. The second is their completeness together
with locality: were some program to begin so, its own tokens would be refused as well.

A refusal may also come from the nesting limit. That is told apart by reading with
higher limits: where one of them changes the reading, nothing is said.
-/

set_option autoImplicit false

namespace ProcLang

/-- No higher nesting limit changes how the stream is read as a program. So it is where
the limit is never met, and also where it is met at a token that is refused without it;
a failure that some higher limit changes is one of the limit. -/
def TokenStream.LimitFree (stream : TokenStream) : Prop :=
  ∀ limit, nestingLimit < limit →
    (stream.readProgramWithin limit).result = stream.readProgram.result ∧
      (stream.readProgramWithin limit).left = stream.readProgram.left

/-! ## Lists closed by a mark -/

/-- A front of a list closed by a mark that begins another such list is a common front of
the two, if the mark is in neither. -/
theorem take_eq_of_closed {γ : Type} {mark : γ} {l l' : List γ} (hl : mark ∉ l) (hl' : mark ∉ l')
    {n : Nat} (h : (l ++ [mark]).take n <+: l' ++ [mark]) : l.take n = l'.take n := by
  induction n generalizing l l' with
  | zero => rw [List.take_zero, List.take_zero]
  | succ n ih =>
      rcases l with _ | ⟨x, l⟩ <;> rcases l' with _ | ⟨y, l'⟩
      · rfl
      · obtain ⟨rfl, -⟩ := List.cons_prefix_cons.1 h
        exact absurd List.mem_cons_self hl'
      · obtain ⟨rfl, -⟩ := List.cons_prefix_cons.1 h
        exact absurd List.mem_cons_self hl
      · obtain ⟨rfl, others⟩ := List.cons_prefix_cons.1 h
        have hl := List.not_mem_of_not_mem_cons hl
        have hl' := List.not_mem_of_not_mem_cons hl'
        exact congrArg (x :: ·) (ih hl hl' others)

/-- Tokens can be given to lexemes such that they agree with given tokens as far as the
lexemes do. -/
theorem exists_tokens {ts : List Token} {ls : List Lexeme} {n : Nat}
    (h : (ts.map Token.toLexeme).take n = ls.take n) :
    ∃ ts' : List Token, ts'.map Token.toLexeme = ls ∧ ts.take n = ts'.take n := by
  induction n generalizing ts ls with
  | zero =>
      refine ⟨ls.map fun l => ⟨l, ⟨0, 0⟩⟩, ?_, ?_⟩
      · rw [List.map_map]
        exact List.map_id ls
      · rw [List.take_zero, List.take_zero]
  | succ n ih =>
      rcases ts with _ | ⟨t, ts⟩ <;> rcases ls with _ | ⟨l, ls⟩
      · exact ⟨[], rfl, rfl⟩
      · exact absurd h (List.cons_ne_nil _ _).symm
      · exact absurd h (List.cons_ne_nil _ _)
      · obtain ⟨rfl, others⟩ := List.cons.inj h
        obtain ⟨ts', lexemes, agree⟩ := ih others
        exact ⟨t :: ts', congrArg (_ :: ·) lexemes, congrArg (t :: ·) agree⟩

/-- The end marker is no lexeme. -/
theorem endOfInput_notMem {ls : List Lexeme} (spells : ∀ l ∈ ls, l.kind.SpellsText l.text) :
    ⟨.endOfInput, ""⟩ ∉ ls := by
  intro mem
  exact not_spells_endOfInput _ (spells _ mem)

/-! ## Refusals -/

/-- What is read before a refusal begins a well-formed program. -/
theorem begins_of_refused {limit : Nat} {ts : List Token} (lex : Lexical ts)
    (refused : ((nestedParsers limit).program ts).value = none) :
    ∃ u : Program, u.WellFormed ∧
      Begins u.lexemes ts ((nestedParsers limit).program ts).rest := by
  have sound := (nestedParsers_program limit).sound ts lex
  rw [Parser.Leads, refused] at sound
  exact sound

/-- Where a refusal does not come from the limit, the tokens up to it and those that the
parser may have looked at begin no well-formed program. -/
theorem not_begins_of_refused {limit : Nat} {ts : List Token}
    (refused : ((nestedParsers limit).program ts).value = none) {u : Program}
    (wf : u.WellFormed) (levels : u.levels ≤ limit) :
    (ts.map Token.toLexeme).take
        (((nestedParsers limit).program ts).consumed.length + lookaheadWidth) ≠
      u.lexemes.take (((nestedParsers limit).program ts).consumed.length + lookaheadWidth) := by
  intro same
  -- the program's own tokens, chosen to agree with the given ones, would be refused as well
  obtain ⟨ts', lexemes, agree⟩ := exists_tokens same
  have near : ts.take (((nestedParsers limit).program ts).looked) =
      ts'.take (((nestedParsers limit).program ts).looked) := by
    rw [Outcome.looked, refused]
    exact agree
  have refused' := ((Parser.local_program limit).window ts ts' near).1
  have whole : Reads u.lexemes ts' [] := ⟨ts', (List.append_nil ts').symm, lexemes⟩
  have accepted := (nestedParsers_program limit).complete u ts' [] ⟨whole, wf, levels, rfl⟩
  rw [accepted.1, refused] at refused'
  exact Option.some_ne_none u refused'

/-- The token at which a reading stopped stands behind those it consumed. -/
theorem getElem?_current (front rest : List Token) (finish : Token) :
    (front ++ rest ++ [finish])[front.length]? = some (TokenStream.current ⟨rest, finish⟩) := by
  rw [List.append_assoc, List.getElem?_append_right (Nat.le_refl _), Nat.sub_self]
  cases rest with
  | nil => rfl
  | cons t rest => rfl

/-- A higher limit that changes nothing consumes the same tokens. -/
theorem TokenStream.LimitFree.consumed {ahead front : List Token} {finish : Token}
    {error : SyntaxError} (free : TokenStream.LimitFree ⟨ahead, finish⟩)
    (failed : (TokenStream.readProgram ⟨ahead, finish⟩).result = .error error)
    (split : ahead = front ++ ((nestedParsers nestingLimit).program ahead).rest) {limit : Nat}
    (higher : nestingLimit < limit) :
    ((nestedParsers limit).program ahead).value = none ∧
      ((nestedParsers limit).program ahead).consumed = front := by
  obtain ⟨result, left⟩ := free limit higher
  have refused := (Parser.read_result_eq_error.1 (result.trans failed)).1
  have rest : ((nestedParsers limit).program ahead).rest =
      ((nestedParsers nestingLimit).program ahead).rest := by
    have lefts := congrArg TokenStream.ahead left
    unfold TokenStream.readProgram TokenStream.readProgramWithin at lefts
    rw [Parser.read_left, Parser.read_left] at lefts
    exact lefts
  have accounts := (Parser.local_program limit).accounts ahead
  rw [rest] at accounts
  exact ⟨refused, List.append_cancel_right (accounts.trans split)⟩

/-- Tokens with which no declaration can begin are refused at the first, whatever the
limit. -/
theorem limitFree_of_first {ts : List Token} {finish : Token}
    (first : ¬(Parser.sees [.typeName, .ident] ts || Parser.sees [.typeName, .star, .ident] ts) = true)
    (more : headKind ts ≠ .endOfInput) : TokenStream.LimitFree ⟨ts, finish⟩ := by
  have refused (limit : Nat) : (nestedParsers limit).program.Leads ts (fun _ _ => False) (· = ts) := by
    unfold Nested.program TokenReader.listUntil
    rw [Parser.leads_bind]
    -- the first round of the loop is refused before anything is consumed
    apply Parser.Leads.loop (fun _ r => r = ts) _ rfl
    rintro decls _ rfl
    rw [Parser.leads_bind, Parser.leads_bind, Parser.leads_kindAhead, Parser.leads_pure,
      beq_false_of_ne more, if_neg Bool.false_ne_true, Parser.leads_bind]
    unfold Parser.Leads
    rw [Parser.declaration_eq, Parser.declared_refuses first]
    rfl
  have same (limit : Nat) : ((nestedParsers limit).program ts).value = none ∧
      ((nestedParsers limit).program ts).rest = ts := by
    have led := refused limit
    unfold Parser.Leads at led
    cases hvalue : ((nestedParsers limit).program ts).value with
    | none =>
        rw [hvalue] at led
        exact ⟨rfl, led⟩
    | some u =>
        rw [hvalue] at led
        exact led.elim
  have reading (limit : Nat) :
      (TokenStream.readProgramWithin limit ⟨ts, finish⟩).left = ⟨ts, finish⟩ ∧
        (TokenStream.readProgramWithin limit ⟨ts, finish⟩).result =
          .error (TokenStream.unexpected ⟨ts, finish⟩) := by
    obtain ⟨value, rest⟩ := same limit
    have left := Parser.read_left (nestedParsers limit).program ⟨ts, finish⟩
    rw [rest] at left
    exact ⟨left, Parser.read_result_eq_error.2 ⟨value, congrArg TokenStream.unexpected left.symm⟩⟩
  intro limit _
  obtain ⟨left, result⟩ := reading limit
  obtain ⟨left', result'⟩ := reading nestingLimit
  exact ⟨result.trans result'.symm, left.trans left'.symm⟩

/-- Where a source is refused. The reported token is at an index `place`, behind the
tokens that were consumed; the tokens before it are the first of a well-formed program,
of whatever depth; and unless the nesting limit has a part in it, no well-formed program
begins with the tokens up to the second behind it, or with all of them and the end. -/
theorem error_place (source : String) (tokens : List Token) (error : SyntaxError)
    (lexed : tokenize source = .ok tokens)
    (failed : (TokenStream.ofTokens tokens).readProgram.result = .error error) :
    ∃ place t, tokens[place]? = some t ∧ error = ⟨t.text, t.span⟩ ∧
      place + (TokenStream.ofTokens tokens).readProgram.left.ahead.length =
        (TokenStream.ofTokens tokens).ahead.length ∧
      (∃ u : Program, u.WellFormed ∧
        (tokens.take place).map Token.toLexeme <+: u.lexemes) ∧
      ((TokenStream.ofTokens tokens).LimitFree → ∀ u : Program, u.WellFormed →
        ¬(tokens.take (place + 3)).map Token.toLexeme <+: u.lexemes ++ [⟨.endOfInput, ""⟩]) := by
  obtain ⟨ahead, n, rfl, lex, -⟩ := tokenize_eq_ok lexed
  rw [ofTokens_append_endAt lex] at failed ⊢
  obtain ⟨refused, herror⟩ := Parser.read_result_eq_error.1 failed
  obtain ⟨u, wf, front, split, begun⟩ := begins_of_refused lex refused
  have left : (TokenStream.readProgram ⟨ahead, Token.endAt n⟩).left =
      ⟨((nestedParsers nestingLimit).program ahead).rest, Token.endAt n⟩ := Parser.read_left _ _
  have reported : error = TokenStream.unexpected ⟨_, Token.endAt n⟩ :=
    herror.trans (congrArg TokenStream.unexpected left)
  have place_eq : (ahead ++ [Token.endAt n]).take front.length = front := by
    rw [split, List.append_assoc, List.take_left]
  refine ⟨front.length, _, ?_, reported, ?_, ⟨u, wf, ?_⟩, ?_⟩
  · have found := getElem?_current front ((nestedParsers nestingLimit).program ahead).rest
      (Token.endAt n)
    rw [← split] at found
    exact found
  · rw [left, ← List.length_append, ← split]
  · rw [place_eq]
    exact begun
  -- a limit that leaves the refusal alone and is high enough for the program
  · intro free u wf viable
    have higher : nestingLimit < max (nestingLimit + 1) u.levels :=
      Nat.lt_of_lt_of_le (Nat.lt_succ_self _) (Nat.le_max_left _ _)
    obtain ⟨refused, consumed⟩ := free.consumed failed split higher
    apply not_begins_of_refused refused wf (Nat.le_max_right _ _)
    rw [consumed]
    have spelled : ∀ l ∈ ahead.map Token.toLexeme, l.kind.SpellsText l.text := by
      intro l mem
      obtain ⟨t, ht, rfl⟩ := List.mem_map.1 mem
      exact lex t ht
    apply take_eq_of_closed (endOfInput_notMem spelled) (endOfInput_notMem wf.spells)
    rw [List.map_take, List.map_append] at viable
    exact viable

/-- The tokens of `int * 5`. -/
def numberBehindStar : List Token :=
  [⟨⟨.typeName, "int"⟩, ⟨0, 3⟩⟩, ⟨⟨.star, "*"⟩, ⟨4, 5⟩⟩, ⟨⟨.intLit, "5"⟩, ⟨6, 7⟩⟩, Token.endAt 7]

set_option maxRecDepth 100000 in
/-- The type is reported, two tokens before the number that is out of place: no program
begins with a type, a star and a number. -/
theorem error_place_number_behind_star :
    tokenize "int * 5" = .ok numberBehindStar ∧
      (TokenStream.ofTokens numberBehindStar).readProgram.result = .error ⟨"int", ⟨0, 3⟩⟩ ∧
      ∀ u : Program, u.WellFormed →
        ¬[⟨.typeName, "int"⟩, ⟨.star, "*"⟩, ⟨.intLit, "5"⟩] <+: u.lexemes ++ [⟨.endOfInput, ""⟩] := by
  have lexed : tokenize "int * 5" = .ok numberBehindStar := by cbv
  have failed : (TokenStream.ofTokens numberBehindStar).readProgram.result =
      .error ⟨"int", ⟨0, 3⟩⟩ := by cbv
  have left : (TokenStream.ofTokens numberBehindStar).readProgram.left.ahead.length = 3 := by cbv
  have free : (TokenStream.ofTokens numberBehindStar).LimitFree :=
    limitFree_of_first Bool.false_ne_true (by decide)
  refine ⟨lexed, failed, ?_⟩
  obtain ⟨place, t, -, -, behind, -, refuted⟩ := error_place _ _ _ lexed failed
  rw [left] at behind
  obtain rfl : place = 0 := Nat.add_right_cancel (m := 3) behind
  exact refuted free

end ProcLang
