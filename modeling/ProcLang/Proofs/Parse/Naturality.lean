import Mathlib
import ProcLang.Proofs.Lexical.Scan
import ProcLang.Proofs.Parse.Commutes
import ProcLang.Proofs.Parse.Resumption

/-!
# Kinds alone decide

Tokens whose kinds are the same are read the same way, wherever the reading begins and
whatever their texts and places are: the same number of tokens is consumed, and either both
readings give the same tree but for the texts, or both refuse the token at the same index
(`answer_renames`). So a change of texts and places changes the texts of the tree, or the text
and the place of the error, and nothing else (`kinds_decide`).
-/

set_option autoImplicit false

namespace ProcLang

open ProcLang.Parser (Commutes)

/-! ## Readings of a stream -/

/-- Two readings that come to the same end: trees that are the same but for the texts, or two
refusals, each of the token that is then current; and they leave as many tokens. -/
structure Reading.Parallel {α : Type} (f : String → String) (g : α → α) (r r' : Reading α) :
    Prop where
  ending : (∃ tree, r.result = .ok tree ∧ r'.result = .ok (g tree)) ∨
    r.result = .error r.left.unexpected ∧ r'.result = .error r'.left.unexpected
  left : List.Forall₂ (Token.Renames f) r.left.ahead r'.left.ahead

section Streams

variable {f : String → String} {stream stream' : TokenStream}
  (related : List.Forall₂ (Token.Renames f) stream.ahead stream'.ahead)

include related

theorem read_parallel {α : Type} {g : α → α} {p : Parser α}
    (natural : Commutes (Token.Renames f) g p p) :
    (p.read stream).Parallel f g (p.read stream') := by
  obtain ⟨value, rest⟩ := natural _ _ related
  refine ⟨?_, ?_⟩
  · cases hvalue : (p stream.ahead).value with
    | none =>
        rw [hvalue] at value
        exact .inr ⟨Parser.read_result_eq_error.2 ⟨hvalue, rfl⟩,
          Parser.read_result_eq_error.2 ⟨value, rfl⟩⟩
    | some tree =>
        rw [hvalue] at value
        exact .inl ⟨tree, Parser.read_result_eq_ok.2 hvalue, Parser.read_result_eq_ok.2 value⟩
  · rw [Parser.read_left, Parser.read_left]
    exact rest

omit related in
theorem Reading.Parallel.map {α β : Type} {g : α → α} {r r' : Reading α} (h : r.Parallel f g r')
    (wrap : α → β) (g' : β → β) (commutes : ∀ a, g' (wrap a) = wrap (g a)) :
    (r.map wrap).Parallel f g' (r'.map wrap) := by
  refine ⟨?_, h.left⟩
  rcases h.ending with ⟨tree, ok, ok'⟩ | ⟨error, error'⟩
  · refine .inl ⟨wrap tree, ?_, ?_⟩
    · rw [Reading.map, ok]
      rfl
    · rw [Reading.map, ok', commutes]
      rfl
  · refine .inr ⟨?_, ?_⟩
    · rw [Reading.map, error]
      rfl
    · rw [Reading.map, error']
      rfl

/-- Every phrase is read in parallel. -/
theorem TokenStream.answer_parallel (request : Request) :
    (stream.answer request).Parallel f (Phrase.mapTexts f) (stream'.answer request) := by
  have renames : ∀ t t', Token.Renames f t t' → t.Renames f t' := fun _ _ h => h
  have nested := nestedParsers_natural renames nestingLimit
  cases request with
  | program =>
      exact (read_parallel related (nested.program renames)).map Phrase.program _ fun _ => rfl
  | decl =>
      exact (read_parallel related (nested.declaration renames)).map Phrase.decl _ fun _ => rfl
  | stmt => exact (read_parallel related nested.stmt).map Phrase.stmt _ fun _ => rfl
  | expr => exact (read_parallel related nested.expr).map Phrase.expr _ fun _ => rfl

end Streams

/-! ## Machines -/

/-- Tokens of the same kinds are cut at the same place by their first end marker. -/
theorem ofTokensFrom_renames {f : String → String} {ts ts' : List Token}
    (related : List.Forall₂ (Token.Renames f) ts ts') (fallback fallback' : Nat) :
    List.Forall₂ (Token.Renames f) (TokenStream.ofTokensFrom fallback ts).ahead
      (TokenStream.ofTokensFrom fallback' ts').ahead := by
  induction related generalizing fallback fallback' with
  | nil => exact .nil
  | @cons t t' ts ts' first others ih =>
      rw [TokenStream.ofTokensFrom, TokenStream.ofTokensFrom, first.kind]
      split
      · exact .nil
      · exact .cons first (ih _ _)

/-- A vector that ends in an end marker. -/
def Closed (tokens : List Token) : Prop :=
  tokens.getLast?.map (·.kind) = some .endOfInput

theorem Closed.renames {f : String → String} {ts ts' : List Token} (closed : Closed ts)
    (related : List.Forall₂ (Token.Renames f) ts ts') : Closed ts' := by
  have kinds := kinds_renames (fun _ _ h => h) related
  rw [Closed, ← List.getLast?_map] at closed ⊢
  rw [kinds, closed]

/-- At every place in a closed vector stands the stream of the tokens from there on. -/
theorem Closed.stands {tokens : List Token} (closed : Closed tokens) {position : Nat}
    (inside : position < tokens.length) :
    Stands tokens (TokenStream.ofTokens (tokens.drop position)) position := by
  -- the tokens from there on are closed too, so the stream gets no marker of its own
  have last : Closed (tokens.drop position) := by
    rw [Closed, List.getLast?_drop, if_neg (Nat.not_le.2 inside)]
    exact closed
  obtain ⟨t, found, kind⟩ := Option.map_eq_some_iff.1 last
  have marker : closingMarker 0 (tokens.drop position) = [] := by
    rw [closingMarker, found]
    exact if_pos kind
  have stands := ofTokensFrom_stands 0 (tokens.drop position)
  rw [marker, List.append_nil] at stands
  exact ⟨stands.ahead, stands.proper, stands.closed⟩

/-- Two machines on tokens of the same kinds, from the same place: they stop at the same
place, with trees that are the same but for the texts or with refusals of the tokens there. -/
theorem answer_renames {f : String → String} {tokens tokens' : List Token}
    (related : List.Forall₂ (Token.Renames f) tokens tokens') (closed : Closed tokens)
    {position : Nat} (inside : position < tokens.length) (request : Request) :
    ∃ consumed t t', tokens[position + consumed]? = some t ∧
      tokens'[position + consumed]? = some t' ∧
      ((∃ tree, Machine.answer tokens request ⟨position, 0⟩ = (.ok tree, ⟨position + consumed, 0⟩) ∧
          Machine.answer tokens' request ⟨position, 0⟩ =
            (.ok (tree.mapTexts f), ⟨position + consumed, 0⟩)) ∨
        (Machine.answer tokens request ⟨position, 0⟩ =
            (.error (.unexpected ⟨t.text, t.span⟩), ⟨position + consumed, 0⟩) ∧
          Machine.answer tokens' request ⟨position, 0⟩ =
            (.error (.unexpected ⟨t'.text, t'.span⟩), ⟨position + consumed, 0⟩))) := by
  have stands := closed.stands inside
  have stands' := (closed.renames related).stands (related.length_eq ▸ inside)
  have ahead := ofTokensFrom_renames (List.forall₂_drop position related) 0 0
  obtain ⟨ending, left⟩ := TokenStream.answer_parallel ahead request
  obtain ⟨consumed, split, run⟩ := answer_eq stands request
  obtain ⟨consumed', split', run'⟩ := answer_eq stands' request
  -- as many tokens were ahead and as many are left
  have same : consumed'.length = consumed.length := by
    have lengths := congrArg List.length split
    have lengths' := congrArg List.length split'
    have aheadLength := ahead.length_eq
    have leftLength := left.length_eq
    rw [List.length_append] at lengths lengths'
    simp only [TokenStream.ofTokens] at *
    omega
  have found := (stands.answer request split).getElem?_eq
  have found' := (stands'.answer request split').getElem?_eq
  rw [same] at run' found'
  refine ⟨consumed.length, _, _, found, found', ?_⟩
  rcases ending with ⟨tree, ok, ok'⟩ | ⟨error, error'⟩
  · refine .inl ⟨tree, ?_, ?_⟩
    · rw [run, TokenStream.ofTokens, ok]
      rfl
    · rw [run', TokenStream.ofTokens, ok']
      rfl
  · refine .inr ⟨?_, ?_⟩
    · rw [run, TokenStream.ofTokens, error]
      rfl
    · rw [run', TokenStream.ofTokens, error']
      rfl

/-! ## Changed texts and places -/

/-- The token with its text changed by `f` and its place by `g`. -/
def Token.relabel (f : String → String) (g : Span → Span) (t : Token) : Token :=
  ⟨⟨t.kind, f t.text⟩, g t.span⟩

/-- The error with its text changed by `f` and its place by `g`. -/
def SyntaxError.relabel (f : String → String) (g : Span → Span) (e : SyntaxError) : SyntaxError :=
  ⟨f e.text, g e.span⟩

theorem relabel_renames (f : String → String) (g : Span → Span) (tokens : List Token) :
    List.Forall₂ (Token.Renames f) tokens (tokens.map (Token.relabel f g)) :=
  List.forall₂_map_right_iff.2 (List.forall₂_same.2 fun _ _ => ⟨rfl, rfl⟩)

/-- A call on relabelled tokens. -/
theorem answer_relabel (f : String → String) (g : Span → Span) {tokens : List Token}
    (closed : Closed tokens) {position : Nat} (inside : position < tokens.length)
    (request : Request) :
    ∃ (result : Except SyntaxError Phrase) (consumed : Nat),
      Machine.answer tokens request ⟨position, 0⟩ =
        (result.mapError .unexpected, ⟨position + consumed, 0⟩) ∧
      Machine.answer (tokens.map (Token.relabel f g)) request ⟨position, 0⟩ =
        (((result.map (Phrase.mapTexts f)).mapError (SyntaxError.relabel f g)).mapError
          .unexpected, ⟨position + consumed, 0⟩) := by
  obtain ⟨consumed, t, t', found, found', ending⟩ :=
    answer_renames (relabel_renames f g tokens) closed inside request
  obtain rfl : t.relabel f g = t' := by
    rw [List.getElem?_map, found] at found'
    exact Option.some.inj found'
  rcases ending with ⟨tree, ok, ok'⟩ | ⟨error, error'⟩
  · exact ⟨.ok tree, consumed, ok, ok'⟩
  · exact ⟨.error ⟨t.text, t.span⟩, consumed, error, error'⟩

theorem Closed.pos {tokens : List Token} (closed : Closed tokens) : 0 < tokens.length := by
  cases tokens with
  | nil => cases closed
  | cons t ts => exact Nat.succ_pos _

/-- What is read of a source is what a machine on its tokens answers. -/
theorem parseSource_of_answer {source : String} {tokens : List Token}
    (lexed : tokenize source = .ok tokens) :
    Closed tokens ∧
      (∀ tree cursor, Machine.answer tokens .program ⟨0, 0⟩ = (.ok tree, cursor) →
        ∃ u, tree = .program u ∧ parseSource source = .ok u) ∧
      ∀ e cursor, Machine.answer tokens .program ⟨0, 0⟩ = (.error (.unexpected e), cursor) →
        parseSource source = .error e := by
  obtain ⟨front, n, rfl, -, -⟩ := tokenize_eq_ok lexed
  have closed : Closed (front ++ [Token.endAt n]) := by
    rw [Closed, List.getLast?_concat]
    rfl
  obtain ⟨consumed, -, run⟩ := answer_eq (closed.stands closed.pos) .program
  have read : parseSource source =
      (TokenStream.ofTokens (front ++ [Token.endAt n])).readProgram.result := by
    rw [parseSource, lexed]
    rfl
  rw [List.drop_zero, TokenStream.answer, Reading.map] at run
  rw [run, read]
  cases (TokenStream.ofTokens (front ++ [Token.endAt n])).readProgram.result with
  | error e =>
      refine ⟨closed, ?_, ?_⟩
      · rintro tree cursor ⟨⟩
      · rintro e' cursor ⟨⟩
        rfl
  | ok u =>
      refine ⟨closed, ?_, ?_⟩
      · rintro tree cursor ⟨⟩
        exact ⟨u, rfl, rfl⟩
      · rintro e cursor ⟨⟩

/-- Tokens with the same lexemes differ in their places only. -/
theorem renames_of_lexemes {ts ts' : List Token}
    (same : ts.map Token.toLexeme = ts'.map Token.toLexeme) :
    List.Forall₂ (Token.Renames id) ts ts' := by
  rw [← List.forall₂_eq_eq_eq, List.forall₂_map_left_iff, List.forall₂_map_right_iff] at same
  refine same.imp fun t t' lexeme => ⟨?_, ?_⟩
  · exact (congrArg Lexeme.kind lexeme).symm
  · exact (congrArg Lexeme.text lexeme).symm

/-- Two sources with the same lexemes have the same tree or are refused at the same token. -/
theorem parseSource_same_lexemes {a b : String} {tokens tokens' : List Token}
    (lexed : tokenize a = .ok tokens) (lexed' : tokenize b = .ok tokens')
    (same : tokens.map Token.toLexeme = tokens'.map Token.toLexeme) :
    (∃ u, parseSource a = .ok u ∧ parseSource b = .ok u) ∨
      ∃ (i : Nat) (t t' : Token), tokens[i]? = some t ∧ tokens'[i]? = some t' ∧
        parseSource a = .error ⟨t.text, t.span⟩ ∧ parseSource b = .error ⟨t'.text, t'.span⟩ := by
  obtain ⟨closed, accepts, refuses⟩ := parseSource_of_answer lexed
  obtain ⟨-, accepts', refuses'⟩ := parseSource_of_answer lexed'
  obtain ⟨consumed, t, t', found, found', ending⟩ :=
    answer_renames (renames_of_lexemes same) closed closed.pos .program
  rcases ending with ⟨tree, ok, ok'⟩ | ⟨error, error'⟩
  · obtain ⟨u, rfl, read⟩ := accepts _ _ ok
    rw [Phrase.mapTexts_id] at ok'
    obtain ⟨u', same, read'⟩ := accepts' _ _ ok'
    obtain rfl : u = u' := Phrase.program.inj same
    exact .inl ⟨u, read, read'⟩
  · exact .inr ⟨_, t, t', found, found', refuses _ _ error, refuses' _ _ error'⟩

/-- Kinds alone decide. Whatever is done to the texts and the places of tokens that end in an
end marker, a call of any kind from any place gives the tree with the same done to its texts,
or the error with the same done to its text and place, and consumes as many tokens. And two
sources with the same kinds and texts have the same tree, or are refused at the same token. -/
theorem kinds_decide :
    (∀ (tokens : List Token) (f : String → String) (g : Span → Span) (position : Nat)
      (request : Request), Closed tokens → position < tokens.length →
      ∃ (result : Except SyntaxError Phrase) (consumed : Nat),
        Machine.answer tokens request ⟨position, 0⟩ =
          (result.mapError .unexpected, ⟨position + consumed, 0⟩) ∧
        Machine.answer (tokens.map (Token.relabel f g)) request ⟨position, 0⟩ =
          (((result.map (Phrase.mapTexts f)).mapError (SyntaxError.relabel f g)).mapError
            .unexpected, ⟨position + consumed, 0⟩)) ∧
    ∀ (a b : String) (tokens tokens' : List Token), tokenize a = .ok tokens →
      tokenize b = .ok tokens' → tokens.map Token.toLexeme = tokens'.map Token.toLexeme →
      (∃ u, parseSource a = .ok u ∧ parseSource b = .ok u) ∨
        ∃ (i : Nat) (t t' : Token), tokens[i]? = some t ∧ tokens'[i]? = some t' ∧
          parseSource a = .error ⟨t.text, t.span⟩ ∧ parseSource b = .error ⟨t'.text, t'.span⟩ :=
  ⟨fun _ f g _ request closed inside => answer_relabel f g closed inside request,
    fun _ _ _ _ lexed lexed' same => parseSource_same_lexemes lexed lexed' same⟩

/-- Tokens put together by hand, none with a text of its kind. -/
def oddTokens : List Token :=
  [⟨⟨.kwIf, "1"⟩, ⟨9, 3⟩⟩, ⟨⟨.ident, ";"⟩, ⟨4, 4⟩⟩, ⟨⟨.plusPlus, "int"⟩, ⟨0, 0⟩⟩,
    ⟨⟨.endOfInput, "if"⟩, ⟨1, 0⟩⟩]

set_option maxRecDepth 100000 in
/-- From the second token on a name with `++` behind it, whatever the texts are; and two
sources with other blanks are refused at the same token, their end. -/
theorem kinds_decide_odd :
    (∃ consumed,
      Machine.answer oddTokens .expr ⟨1, 0⟩ =
        (.ok (.expr (.postIncrement (.ident ";"))), ⟨1 + consumed, 0⟩) ∧
      Machine.answer (oddTokens.map (Token.relabel (fun _ => "+") fun _ => ⟨7, 7⟩)) .expr ⟨1, 0⟩ =
        (.ok (.expr (.postIncrement (.ident "+"))), ⟨1 + consumed, 0⟩)) ∧
    ∃ tokens tokens', tokenize "int x" = .ok tokens ∧ tokenize "int  x " = .ok tokens' ∧
      ((∃ u, parseSource "int x" = .ok u ∧ parseSource "int  x " = .ok u) ∨
        ∃ (i : Nat) (t t' : Token), tokens[i]? = some t ∧ tokens'[i]? = some t' ∧
          parseSource "int x" = .error ⟨t.text, t.span⟩ ∧
          parseSource "int  x " = .error ⟨t'.text, t'.span⟩) := by
  have closed : Closed oddTokens := rfl
  have read : ((TokenStream.ofTokens (oddTokens.drop 1)).answer .expr).result =
      .ok (.expr (.postIncrement (.ident ";"))) := by cbv
  obtain ⟨result, consumed, answer, relabelled⟩ :=
    kinds_decide.1 oddTokens (fun _ => "+") (fun _ => ⟨7, 7⟩) 1 .expr closed (by decide)
  have inside : 1 < oddTokens.length := by decide
  obtain ⟨_, -, run⟩ := answer_eq (closed.stands inside) .expr
  have same : result.mapError Halt.unexpected = .ok (.expr (.postIncrement (.ident ";"))) := by
    rw [read] at run
    exact congrArg Prod.fst (answer.symm.trans run)
  obtain ⟨tokens, lexed, lexemes⟩ : ∃ tokens, tokenize "int x" = .ok tokens ∧
      tokens.map Token.toLexeme =
        [⟨.typeName, "int"⟩, ⟨.ident, "x"⟩, ⟨.endOfInput, ""⟩] := ⟨_, by cbv, by cbv⟩
  obtain ⟨tokens', lexed', lexemes'⟩ : ∃ tokens, tokenize "int  x " = .ok tokens ∧
      tokens.map Token.toLexeme =
        [⟨.typeName, "int"⟩, ⟨.ident, "x"⟩, ⟨.endOfInput, ""⟩] := ⟨_, by cbv, by cbv⟩
  refine ⟨⟨consumed, ?_⟩, tokens, tokens', lexed, lexed', ?_⟩
  · cases result with
    | error e => cases same
    | ok tree =>
        cases same
        exact ⟨answer, relabelled⟩
  · exact kinds_decide.2 _ _ _ _ lexed lexed' (lexemes.trans lexemes'.symm)

end ProcLang
