import Mathlib
import ProcLang.Proofs.Lexical.Concatenation
import ProcLang.Proofs.Parse.Acceptance
import ProcLang.Proofs.Parse.Commutes
import ProcLang.Text.Source

/-!
# Concatenated sources

A source that is read may be written in front of another: its declarations come first, and
the other source is read, or refused, as it would be alone (`concatenation`).

Two facts carry this. Declarations that stand at the front of the tokens are read whatever
follows them, so the loop over declarations comes to the tokens of the second source with
those of the first behind it (`program_behind`). And no parser looks at the places of tokens,
so moving the tokens changes nothing but the places left (`Follows.program`).
-/

set_option autoImplicit false

namespace ProcLang

open TokenReader

namespace Parser

variable {α β σ : Type}

/-! ## Places are never read -/

/-- The second parser, on tokens that are changed by `f`, gives what the first gives on the
tokens as they are, and leaves the same tokens, changed by `f`. -/
def Follows (f : Token → Token) (p q : Parser α) : Prop :=
  ∀ ts, (q (ts.map f)).value = (p ts).value ∧ (q (ts.map f)).rest = (p ts).rest.map f

/-- Tokens are related by a function exactly if it makes the ones of the others. -/
theorem forall₂_map_eq {f : Token → Token} {ts ts' : List Token} :
    List.Forall₂ (fun t t' => f t = t') ts ts' ↔ ts.map f = ts' := by
  rw [← List.forall₂_map_left_iff, List.forall₂_eq_eq_eq]

/-- Programs are read by the lexemes of the tokens alone. -/
theorem Follows.program {f : Token → Token} (same : ∀ t, (f t).toLexeme = t.toLexeme)
    (limit : Nat) : Follows f (nestedParsers limit).program (nestedParsers limit).program := by
  intro ts
  have renames : ∀ t t', f t = t' → t.Renames id t' := by
    rintro t - rfl
    exact ⟨congrArg Lexeme.kind (same t), congrArg Lexeme.text (same t)⟩
  obtain ⟨value, rest⟩ := (nestedParsers_natural renames limit).program renames ts (ts.map f)
    (forall₂_map_eq.2 rfl)
  refine ⟨?_, (forall₂_map_eq.1 rest).symm⟩
  rw [value, show Program.mapTexts id = id from funext Program.mapTexts_id, Option.map_id, id]

/-! ## The same run with another value -/

/-- The second parser does what the first does and gives `g` of its value. -/
def Mirrors (g : α → β) (p : Parser α) (q : Parser β) : Prop :=
  ∀ ts, (q ts).value = (p ts).value.map g ∧ (q ts).rest = (p ts).rest

namespace Mirrors

theorem iff_commutes {g : α → β} {p : Parser α} {q : Parser β} :
    Mirrors g p q ↔ Commutes Eq g p q := by
  simp [Mirrors, Commutes, eq_comm]

theorem pure {g : α → β} {a : α} : Mirrors g (Pure.pure a) (Pure.pure (g a)) :=
  iff_commutes.2 (.pure a)

theorem bind {γ : Type} {g : α → β} {p : Parser γ} {k : γ → Parser α} {k' : γ → Parser β}
    (h : ∀ c, Mirrors g (k c) (k' c)) : Mirrors g (p >>= k) (p >>= k') := by
  have same : Mirrors id p p := fun ts => ⟨Option.map_id_apply.symm, rfl⟩
  exact iff_commutes.2 ((iff_commutes.1 same).bind_same fun c => iff_commutes.1 (h c))

theorem loop {σ' : Type} {f : σ → σ'} {g : α → β} {round : σ → Parser (Round σ α)}
    {round' : σ' → Parser (Round σ' β)}
    (h : ∀ s, Mirrors (roundMap f g) (round s) (round' (f s))) (s : σ) :
    Mirrors g (TokenReader.loop round s) (TokenReader.loop round' (f s)) :=
  iff_commutes.2 (.loop (fun s => iff_commutes.1 (h s)) s)

end Mirrors

/-- A round of a list up to an end. -/
def untilRound (ended : Parser Bool) (item : Parser α) (items : List α) :
    Parser (Round (List α) (List α)) := do
  if ← ended then return .done items.reverse
  let x ← item
  return .again (x :: items)

theorem listUntil_eq_loop (ended : Parser Bool) (item : Parser α) :
    listUntil ended item = TokenReader.loop (untilRound ended item) [] := rfl

/-- Items that were there before stay in front of those that are read. -/
theorem untilRound_mirrors (ended : Parser Bool) (item : Parser α) (before : List α)
    (items : List α) :
    Mirrors (before.reverse ++ ·) (TokenReader.loop (untilRound ended item) items)
      (TokenReader.loop (untilRound ended item) (items ++ before)) := by
  apply Mirrors.loop (f := (· ++ before))
  intro items
  apply Mirrors.bind
  intro finished
  cases finished with
  | true =>
      show Mirrors _ _ (Pure.pure (Round.done (items ++ before).reverse))
      rw [List.reverse_append]
      exact Mirrors.pure
  | false =>
      apply Mirrors.bind
      intro a
      exact Mirrors.pure

end Parser

/-! ## Declarations in front of others -/

section Declarations

open ProcLang.Parser

/-- A declaration begins with its type. -/
theorem Decl.WellFormed.lexemes_starts {d : Decl} (wf : d.WellFormed) :
    ∃ typeName ls, d.lexemes = ⟨.typeName, typeName⟩ :: ls := by
  cases d with
  | func d =>
      obtain ⟨ls, hls⟩ := d.lexemes_front
      exact ⟨_, _, hls⟩
  | var d =>
      obtain ⟨name, l, ls, hls, -⟩ := VarDecl.lexemes_front wf
      exact ⟨_, _, hls⟩
  | param p => exact absurd wf (by simp [Decl.WellFormed])

variable {limit : Nat}

/-- The loop over declarations takes those at the front of the tokens one by one. -/
theorem loop_declarations {ended : Parser Bool} {decls : List Decl}
    (goesOn : ∀ ts, headKind ts ≠ .endOfInput → ended.Yields ts false ts)
    (wf : ∀ d ∈ decls, d.WellFormed) (levels : ∀ d ∈ decls, d.levels ≤ limit) {ts rest : List Token}
    (reads : Reads (decls.flatMap Decl.lexemes) ts rest) (items : List Decl) :
    let run := TokenReader.loop (untilRound ended (nestedParsers limit).declaration)
    (run items ts).value = (run (decls.reverse ++ items) rest).value ∧
      (run items ts).rest = (run (decls.reverse ++ items) rest).rest := by
  intro run
  induction decls generalizing ts items with
  | nil =>
      obtain rfl := reads_nil.1 reads
      exact ⟨rfl, rfl⟩
  | cons d decls ih =>
      obtain ⟨dwf, wf⟩ := List.forall_mem_cons.1 wf
      obtain ⟨dlevels, levels⟩ := List.forall_mem_cons.1 levels
      obtain ⟨mid, first, others⟩ := reads_append.1 reads
      obtain ⟨typeName, ls, starts⟩ := dwf.lexemes_starts
      have proper : headKind ts ≠ .endOfInput := by
        rw [starts] at first
        rw [first.headKind_eq]
        exact TokenKind.noConfusion
      have shorter : mid.length < ts.length := first.length_lt (by simp [starts])
      -- completeness of the grammar reads the declaration whatever stands behind it
      have nested := nestedParsers_parses limit
      have read := (Nested.declaration_parses nested.operand nested.stmt).complete d ts mid
        ⟨first, dwf, dlevels, trivial⟩
      have round : (untilRound ended (nestedParsers limit).declaration items).Yields ts
          (.again (d :: items)) mid :=
        (goesOn ts proper).bind (read.bind yields_pure)
      obtain ⟨value, left⟩ := loop_again round shorter
      obtain ⟨value', left'⟩ := ih wf levels others (d :: items)
      rw [List.reverse_cons, List.append_assoc]
      exact ⟨value.trans value', left.trans left'⟩

/-- A program is the list of its declarations. -/
theorem program_mirrors (inner : Nested Parser) :
    Mirrors Program.mk (listUntil (do return (← TokenReader.kindAhead) == .endOfInput)
      inner.declaration) inner.program := by
  intro ts
  unfold Nested.program
  cases hvalue : (listUntil (do return (← TokenReader.kindAhead) == .endOfInput)
      inner.declaration ts).value with
  | none =>
      rw [bind_none hvalue]
      exact ⟨rfl, rfl⟩
  | some decls =>
      rw [bind_some hvalue]
      exact ⟨rfl, rfl⟩

/-- A program whose first declarations are known is what follows, with these in front. -/
theorem program_behind {decls : List Decl} (wf : ∀ d ∈ decls, d.WellFormed)
    (levels : ∀ d ∈ decls, d.levels ≤ limit) {ts rest : List Token}
    (reads : Reads (decls.flatMap Decl.lexemes) ts rest) :
    ((nestedParsers limit).program ts).value =
        ((nestedParsers limit).program rest).value.map (fun u => ⟨decls ++ u.decls⟩) ∧
      ((nestedParsers limit).program ts).rest = ((nestedParsers limit).program rest).rest := by
  obtain ⟨whole, wholeLeft⟩ := program_mirrors (nestedParsers limit) ts
  obtain ⟨behind, behindLeft⟩ := program_mirrors (nestedParsers limit) rest
  rw [listUntil_eq_loop] at whole wholeLeft behind behindLeft
  obtain ⟨value, left⟩ := loop_declarations Nested.endOfInput_ends.goesOn wf levels reads []
  obtain ⟨value', left'⟩ := untilRound_mirrors (do return (← TokenReader.kindAhead) == .endOfInput)
    (nestedParsers limit).declaration decls.reverse [] rest
  rw [List.append_nil] at value left
  rw [List.nil_append, List.reverse_reverse] at value'
  rw [List.nil_append] at left'
  constructor
  · rw [whole, behind, value, value', Option.map_map, Option.map_map]
    rfl
  · rw [wholeLeft, behindLeft, left, left']

end Declarations

/-! ## Sources -/

/-- What is left of moved tokens is reported where it was moved to. -/
theorem unexpected_shift (n : Nat) (ts : List Token) (finish : Token) :
    TokenStream.unexpected ⟨ts.map (Token.shift n), finish.shift n⟩ =
      (TokenStream.unexpected ⟨ts, finish⟩).shift n := by
  cases ts with
  | nil => rfl
  | cons t ts => rfl

/-- A program in front of moved tokens: what is read there is added to the program, and what
is refused there is refused where it was moved to. -/
theorem readProgram_behind {u : Program} (wf : u.WellFormed) (levels : u.levels ≤ nestingLimit)
    {front : List Token} (lexemes : front.map Token.toLexeme = u.lexemes) (n : Nat)
    (ts : List Token) (finish : Token) :
    (TokenStream.readProgram ⟨front ++ ts.map (Token.shift n), finish.shift n⟩).result =
      ((TokenStream.readProgram ⟨ts, finish⟩).result.map fun u' => ⟨u.decls ++ u'.decls⟩).mapError
        (SyntaxError.shift n) := by
  have reads : Reads (u.decls.flatMap Decl.lexemes) (front ++ ts.map (Token.shift n))
      (ts.map (Token.shift n)) := ⟨front, rfl, lexemes⟩
  obtain ⟨value, left⟩ := program_behind wf (Form.levels_le_of_largest (A := Decl.form) levels) reads
  obtain ⟨moved, movedLeft⟩ :=
    Parser.Follows.program (f := Token.shift n) (fun _ => rfl) nestingLimit ts
  rw [moved] at value
  rw [movedLeft] at left
  unfold TokenStream.readProgram TokenStream.readProgramWithin Parser.read
  cases hvalue : ((nestedParsers nestingLimit).program ts).value with
  | none =>
      simp only [value, hvalue, left, Option.map_none, unexpected_shift]
      rfl
  | some u' =>
      simp only [value, hvalue, Option.map_some]
      rfl

/-- A source that is read, a line feed, and any other source: the declarations of the first
come first, and the second is read or refused as it would be alone. -/
theorem parseSource_append_line {a : String} {u : Program} (accepted : parseSource a = .ok u)
    (b : String) :
    parseSource (a ++ "\n" ++ b) =
      ((parseSource b).map fun u' => ⟨u.decls ++ u'.decls⟩).mapError
        (SyntaxError.shift (a.utf8ByteSize + 1)) := by
  obtain ⟨wf, levels, scanned⟩ := (parseSource_eq_ok a u).1 accepted
  obtain ⟨front, n, lexed, lex, lexemes⟩ := tokenize_of_scan scanned
  -- the end marker of the first source is the only token of it that is lost
  obtain ⟨front', split, behind⟩ := tokenize_append_line lexed
  obtain rfl : front = front' := (List.append_inj' split rfl).1
  unfold parseSource
  rw [behind b]
  cases htokens : tokenize b with
  | error e => rfl
  | ok ts' =>
      obtain ⟨others, m, rfl, lex', -⟩ := tokenize_eq_ok htokens
      have moved : Lexical (front ++ others.map (Token.shift (a.utf8ByteSize + 1))) := by
        intro t mem
        rcases List.mem_append.1 mem with mem | mem
        · exact lex t mem
        · obtain ⟨t', mem', rfl⟩ := List.mem_map.1 mem
          exact lex' t' mem'
      show (TokenStream.ofTokens (front ++
          (others ++ [Token.endAt m]).map (Token.shift (a.utf8ByteSize + 1)))).readProgram.result =
        ((TokenStream.ofTokens (others ++ [Token.endAt m])).readProgram.result.map _).mapError _
      rw [ofTokens_append_endAt lex', ← readProgram_behind wf levels lexemes, List.map_append,
        ← List.append_assoc]
      exact congrArg (fun stream => stream.readProgram.result) (ofTokens_append_endAt moved _)

/-- The place in a text behind another text and a line feed: as many lines further down as
there are line feeds before it, in the same column. -/
theorem position_append_line (name a b : String) (offset : Nat) :
    (Source.mk name (a ++ "\n" ++ b)).position (a.utf8ByteSize + 1 + offset) =
      ((Source.mk name b).position offset).down (a.toList.count '\n' + 1) := by
  unfold Source.position
  rw [toList_append_line, ← utf8Length_toList, Position.afterBytes_append_line]
  rfl

/-- Concatenation. Let `a` be read as the program `u`. Whatever `b` is, the text `a`, a line
feed and `b` are treated as `b` is: where `b` is read, so is the whole, as the declarations of
`u` and then those of `b`; where `b` is refused, lexically or by the parser, so is the whole,
with the same token text, its span moved on by the bytes of `a` and one more, and its position
moved down by the line feeds of `a` and one more, in the same column. -/
theorem concatenation (a : String) (u : Program) (accepted : parseSource a = .ok u) (b : String) :
    (∀ u', parseSource b = .ok u' →
      parseSource (a ++ "\n" ++ b) = .ok ⟨u.decls ++ u'.decls⟩) ∧
    ∀ e, parseSource b = .error e →
      ∃ e', parseSource (a ++ "\n" ++ b) = .error e' ∧ e'.text = e.text ∧
        e'.span.start = e.span.start + (a.utf8ByteSize + 1) ∧
        e'.span.stop = e.span.stop + (a.utf8ByteSize + 1) ∧
        ∀ name,
          ((Source.mk name (a ++ "\n" ++ b)).position e'.span.start).line =
            ((Source.mk name b).position e.span.start).line + (a.toList.count '\n' + 1) ∧
          ((Source.mk name (a ++ "\n" ++ b)).position e'.span.start).column =
            ((Source.mk name b).position e.span.start).column := by
  have whole := parseSource_append_line accepted b
  constructor
  · intro u' read
    rw [whole, read]
    rfl
  · intro e refused
    rw [refused] at whole
    refine ⟨_, whole, rfl, Nat.add_comm _ _, Nat.add_comm _ _, fun name => ?_⟩
    have position := position_append_line name a b e.span.start
    have line := congrArg Position.line position
    have column := congrArg Position.column position
    exact ⟨line, column⟩

set_option maxRecDepth 100000 in
/-- A source that ends in a comment, in front of one that is read and of one that ends too
early: the end is reported at its byte in the whole, three lines further down. -/
theorem concatenation_comment_behind :
    ∃ u : Program, parseSource "int x;\n\n// é" = .ok u ∧
      parseSource ("int x;\n\n// é" ++ "\n" ++ "int y;") =
        .ok ⟨u.decls ++ [.var ⟨"int", [⟨.plain "y", none⟩]⟩]⟩ ∧
      ∃ e, parseSource ("int x;\n\n// é" ++ "\n" ++ "int f()") = .error e ∧ e.text = "" ∧
        e.span.start = 21 ∧
        ((Source.mk "" ("int x;\n\n// é" ++ "\n" ++ "int f()")).position e.span.start).line = 4 := by
  have accepted : parseSource "int x;\n\n// é" = .ok ⟨[.var ⟨"int", [⟨.plain "x", none⟩]⟩]⟩ := by cbv
  have read : parseSource "int y;" = .ok ⟨[.var ⟨"int", [⟨.plain "y", none⟩]⟩]⟩ := by cbv
  have refused : parseSource "int f()" = .error ⟨"", ⟨7, 7⟩⟩ := by cbv
  have alone : ((Source.mk "" "int f()").position 7).line = 1 := by decide
  obtain ⟨e, whole, text, start, -, position⟩ := (concatenation _ _ accepted "int f()").2 _ refused
  refine ⟨_, accepted, (concatenation _ _ accepted "int y;").1 _ read, e, whole, text, ?_, ?_⟩
  · rw [start]
    decide
  · rw [(position "").1, alone]
    decide

end ProcLang
