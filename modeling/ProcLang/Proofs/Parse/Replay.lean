import Mathlib
import ProcLang.Parse.Eager
import ProcLang.Parse.Log
import ProcLang.Parse.Session
import ProcLang.Proofs.Lexical.Scan
import ProcLang.Proofs.Parse.Concatenation
import ProcLang.Proofs.Parse.ErrorPlace

/-!
# The log replays the parse

The events of a parse are determined by two things: the places at which top-level
declarations were begun, and how many tokens were consumed. `Event.replay` puts them
together again from the tokens, and `log_replays_parse` shows that the log of every source is
such a replay, wherever the parse stops.

No parser below a declaration logs anything but the tokens it consumes (`Parser.Quiet`), which
every way of reading keeps. So a run of the parser of programs is a row of declarations, each a
note and then its tokens (`DeclsRead`), up to the end of the input or to a declaration that is
refused (`program_run`).
-/

set_option autoImplicit false

namespace ProcLang

open TokenReader

namespace Parser

variable {α β σ : Type}

/-! ## Parsers that log only what they consume -/

/-- The steps of the parser are those of the tokens it consumes. -/
def Quiet (p : Parser α) : Prop :=
  ∀ ts, (p ts).steps = (p ts).consumed.map .advance

namespace Quiet

/-- Parts that log only what they consume do so together. -/
theorem append {first : Outcome α} {second : Outcome β}
    (hfirst : first.steps = first.consumed.map .advance)
    (hsecond : second.steps = second.consumed.map .advance) (value : Option σ) (rest : List Token) :
    first.steps ++ second.steps =
      (Outcome.mk value rest (first.steps ++ second.steps)).consumed.map .advance := by
  rw [Outcome.consumed_append, List.map_append, ← hfirst, ← hsecond]

theorem bind {p : Parser α} {f : α → Parser β} (hp : p.Quiet) (hf : ∀ a, (f a).Quiet) :
    (p >>= f).Quiet := by
  intro ts
  cases hvalue : (p ts).value with
  | none =>
      rw [bind_none hvalue]
      exact hp ts
  | some a =>
      rw [bind_some hvalue]
      exact append (hp ts) (hf a _) _ _

theorem advance : Parser.advance.Quiet := by
  intro ts
  cases ts with
  | nil => rfl
  | cons t ts => rfl

theorem choose {accepts : TokenKind → Option β} {taken : β → String → Parser α}
    {otherwise : Parser α} (htaken : ∀ b text, (taken b text).Quiet) (hotherwise : otherwise.Quiet) :
    (TokenReader.choose accepts taken otherwise).Quiet := by
  refine bind (fun _ => rfl) fun kind => ?_
  cases accepts kind with
  | none => exact hotherwise
  | some b => exact advance.bind (htaken b)

theorem loop {round : σ → Parser (Round σ α)} (hround : ∀ s, (round s).Quiet) (s : σ) :
    (TokenReader.loop round s : Parser α).Quiet := by
  intro ts
  show (iterate round s ts).steps = (iterate round s ts).consumed.map .advance
  fun_induction iterate round s ts with
  | case1 s ts first hvalue => exact hround s ts
  | case2 s ts first a hvalue => exact hround s ts
  | case3 s ts first next hvalue shorter others tail => exact append (hround s ts) tail _ _
  | case4 s ts first next hvalue stuck => exact hround s ts

end Quiet

/-- Every way of reading a phrase below a declaration logs only what it consumes. -/
theorem quiet_composable : @Composable Parser Parser _ _ fun _ p _ => p.Quiet where
  pure _ _ := rfl
  refuse _ := rfl
  kindAhead _ := rfl
  bind := .bind
  choose _ := .choose
  loop := .loop
  declarator := by
    refine Quiet.bind (fun _ => rfl) fun pointer => ?_
    have expect (wanted : TokenKind) : (TokenReader.expect wanted : Parser String).Quiet :=
      .choose (fun _ _ _ => rfl) fun _ => rfl
    have skip (wanted : TokenKind) : (TokenReader.skip wanted : Parser Unit).Quiet :=
      .choose (fun _ _ _ => rfl) fun _ => rfl
    cases pointer with
    | true => exact (skip _).bind fun _ => (expect _).bind fun _ _ => rfl
    | false => exact (expect _).bind fun _ _ => rfl

/-! ## Declarations -/

section Declaration

variable (limit : Nat)

/-- What a declaration does once it is noted. -/
theorem declared_quiet (ts : List Token) : (declared (nestedParsers limit) ts).Quiet := by
  have nested := nestedParsers_related quiet_composable limit
  unfold declared
  -- a function, a list of variables, or a refusal
  split
  · exact (quiet_composable.funcDecl nested).bind fun _ _ => rfl
  · split
    · exact (quiet_composable.varDecl nested).bind fun _ _ => rfl
    · exact fun _ => rfl

/-- A declaration is noted, and then logs the tokens it consumes. -/
theorem declaration_steps (ts : List Token) :
    ((nestedParsers limit).declaration ts).steps =
      .declaration ts.head? :: ((nestedParsers limit).declaration ts).consumed.map .advance := by
  have consumed : ((nestedParsers limit).declaration ts).consumed =
      (declared (nestedParsers limit) ts ts).consumed := by
    rw [declaration_eq]
    rfl
  rw [consumed, ← declared_quiet limit ts ts, declaration_eq]

theorem declaration_accounts : (nestedParsers limit).declaration.Accounts :=
  accounts_compatible.decl (nestedParsers_related accounts_compatible.toComposable limit)

variable {limit}

/-- A declaration that is read has at least one token. -/
theorem declaration_consumes {ts : List Token} {d : Decl}
    (read : ((nestedParsers limit).declaration ts).value = some d) :
    ((nestedParsers limit).declaration ts).consumed ≠ [] := by
  rw [declaration_eq] at read ⊢
  apply List.ne_nil_of_length_pos
  -- one is read only where the tokens ahead can begin one
  by_cases begins : (sees [.typeName, .ident] ts || sees [.typeName, .star, .ident] ts) = true
  · exact declared_consumes begins
  · rw [declared_refuses begins] at read
    exact absurd read (Option.some_ne_none d).symm

end Declaration

/-! ## Rows of declarations -/

/-- The steps of a row of declarations: each is noted at its first token. -/
def declSteps (row : List (List Token)) : List Step :=
  row.flatMap fun front => .declaration front.head? :: front.map .advance

/-- The tokens ahead begin with a row of declarations, of which each is read from all of its
tokens, and at least one; `rest` is left. -/
inductive DeclsRead (limit : Nat) : List Token → List (List Token × Decl) → List Token → Prop
  | nil (ts : List Token) : DeclsRead limit ts [] ts
  | cons {front mid rest : List Token} {d : Decl} {row : List (List Token × Decl)} :
      headKind (front ++ mid) ≠ .endOfInput → front ≠ [] →
        (nestedParsers limit).declaration.Yields (front ++ mid) d mid →
          DeclsRead limit mid row rest → DeclsRead limit (front ++ mid) ((front, d) :: row) rest

/-- What the loop over declarations comes to, with `decls` read before: the end behind a row
of declarations, or a declaration that is refused. -/
inductive DeclsRun (limit : Nat) (decls : List Decl) (ts : List Token) : Outcome (List Decl) → Prop
  | ended {row : List (List Token × Decl)} {mid : List Token} :
      DeclsRead limit ts row mid → headKind mid = .endOfInput →
        DeclsRun limit decls ts ⟨some (decls ++ row.map (·.2)), mid, declSteps (row.map (·.1))⟩
  | refused {row : List (List Token × Decl)} {mid : List Token} :
      DeclsRead limit ts row mid → headKind mid ≠ .endOfInput →
        ((nestedParsers limit).declaration mid).value = none →
          DeclsRun limit decls ts ⟨none, ((nestedParsers limit).declaration mid).rest,
            declSteps (row.map (·.1)) ++ ((nestedParsers limit).declaration mid).steps⟩

section Run

variable {limit : Nat}

/-- One more declaration in front of a row. -/
theorem DeclsRun.cons {decls : List Decl} {ts : List Token} {d : Decl} {others : Outcome (List Decl)}
    (more : headKind ts ≠ .endOfInput)
    (read : ((nestedParsers limit).declaration ts).value = some d)
    (run : DeclsRun limit (decls ++ [d]) ((nestedParsers limit).declaration ts).rest others) :
    DeclsRun limit decls ts ⟨others.value, others.rest,
      ((nestedParsers limit).declaration ts).steps ++ others.steps⟩ := by
  have split := declaration_accounts limit ts
  have front := declaration_consumes read
  have note := declaration_steps limit ts
  have yields : (nestedParsers limit).declaration.Yields ts d _ := ⟨read, rfl⟩
  generalize ((nestedParsers limit).declaration ts).consumed = consumed at split front note
  generalize ((nestedParsers limit).declaration ts).rest = mid at split run yields
  rw [note]
  subst split
  -- it has a token of its own, so its note names that one
  have head : (consumed ++ mid).head? = consumed.head? := List.head?_append_of_ne_nil _ front
  rw [head]
  cases run with
  | ended others stop =>
      have whole : DeclsRun limit decls _ _ := .ended (.cons more front yields others) stop
      rw [List.map_cons, List.append_cons] at whole
      exact whole
  | refused others stop none =>
      have whole : DeclsRun limit decls _ _ := .refused (.cons more front yields others) stop none
      rw [List.map_cons, declSteps, List.flatMap_cons, List.append_assoc] at whole
      exact whole

/-- One round of the loop over declarations, with the declarations read before in reverse. -/
def declarationRound (limit : Nat) : List Decl → Parser (Round (List Decl) (List Decl)) :=
  untilRound (do return (← TokenReader.kindAhead) == .endOfInput) (nestedParsers limit).declaration

theorem declarationRound_end {items : List Decl} {ts : List Token}
    (stop : headKind ts = .endOfInput) :
    declarationRound limit items ts = ⟨some (.done items.reverse), ts, []⟩ := by
  have ended : (headKind ts == .endOfInput) = true := beq_iff_eq.2 stop
  show (if (headKind ts == .endOfInput) = true then _ else _ : Parser _) ts = _
  rw [if_pos ended]
  rfl

theorem declarationRound_more {items : List Decl} {ts : List Token}
    (more : headKind ts ≠ .endOfInput) :
    declarationRound limit items ts =
      ⟨((nestedParsers limit).declaration ts).value.map fun d => .again (d :: items),
        ((nestedParsers limit).declaration ts).rest,
        ((nestedParsers limit).declaration ts).steps⟩ := by
  have goesOn : ¬(headKind ts == .endOfInput) = true := mt beq_iff_eq.1 more
  show (if (headKind ts == .endOfInput) = true then _ else _ : Parser _) ts = _
  rw [if_neg goesOn]
  cases read : ((nestedParsers limit).declaration ts).value with
  | none => exact bind_none read
  | some d =>
      rw [bind_some read]
      -- the round has no step of its own behind the declaration
      show Outcome.mk _ _ (_ ++ []) = _
      rw [List.append_nil]
      rfl

/-- Every run of the loop over declarations. -/
theorem declarations_run (items : List Decl) (ts : List Token) :
    DeclsRun limit items.reverse ts (iterate (declarationRound limit) items ts) := by
  by_cases stop : headKind ts = .endOfInput
  · have ended : DeclsRun limit items.reverse ts _ := .ended (.nil ts) stop
    rw [iterate]
    simp only [declarationRound_end stop]
    rw [List.map_nil, List.append_nil] at ended
    exact ended
  · rw [iterate]
    simp only [declarationRound_more stop]
    cases read : ((nestedParsers limit).declaration ts).value with
    | none => exact DeclsRun.refused (.nil ts) stop read
    | some d =>
        -- a declaration that is read consumes a token, so the loop goes on with fewer
        have shorter : ((nestedParsers limit).declaration ts).rest.length < ts.length :=
          ((declaration_accounts limit).shorter_iff ts).2
            (List.length_pos_of_ne_nil (declaration_consumes read))
        have run := declarations_run (d :: items) ((nestedParsers limit).declaration ts).rest
        rw [List.reverse_cons] at run
        simp only [Option.map_some]
        rw [if_pos shorter]
        exact .cons stop read run
termination_by ts.length

/-- Every run of the parser of programs: a row of declarations, and then the end or a
declaration that is refused. -/
theorem program_run (ts : List Token) :
    ∃ outcome, DeclsRun limit [] ts outcome ∧
      (nestedParsers limit).program ts = ⟨outcome.value.map Program.mk, outcome.rest, outcome.steps⟩ := by
  refine ⟨_, declarations_run [] ts, ?_⟩
  generalize houtcome : iterate (declarationRound limit) [] ts = outcome
  have loop : (listUntil (do return (← TokenReader.kindAhead) == .endOfInput)
      (nestedParsers limit).declaration : Parser (List Decl)) ts = outcome := houtcome
  unfold Nested.program
  -- behind the loop nothing is read or logged
  cases hvalue : outcome.value with
  | none =>
      rw [← loop] at hvalue
      rw [bind_none hvalue, loop]
      rfl
  | some decls =>
      rw [← loop] at hvalue
      rw [bind_some hvalue, loop]
      show Outcome.mk _ _ (_ ++ []) = _
      rw [List.append_nil]
      rfl

end Run

section Row

variable {limit : Nat} {ts mid : List Token} {row : List (List Token × Decl)}

theorem DeclsRead.nonempty (h : DeclsRead limit ts row mid) :
    ∀ front ∈ row.map (·.1), front ≠ [] := by
  induction h with
  | nil ts => simp
  | cons more front read others ih => exact List.forall_mem_cons.2 ⟨front, ih⟩

/-- The tokens of a row of declarations stand in front of those that are left. -/
theorem DeclsRead.split (h : DeclsRead limit ts row mid) :
    ts = (row.map (·.1)).flatten ++ mid := by
  induction h with
  | nil ts => rfl
  | cons more front read others ih =>
      rw [List.map_cons, List.flatten_cons, List.append_assoc, ← ih]

/-- A row of declarations is what a session reads that asks for one after the other. -/
theorem DeclsRead.session (h : DeclsRead nestingLimit ts row mid) (finish : Token)
    (requests : List Request) :
    (TokenStream.mk ts finish).session (List.replicate row.length .decl ++ requests) =
      row.map (fun r => .ok (.decl r.2)) ++ (TokenStream.mk mid finish).session requests := by
  induction h with
  | nil ts => rfl
  | @cons front mid rest d row more some_token read others ih =>
      have result : (TokenStream.readDecl ⟨front ++ mid, finish⟩).result = .ok d :=
        read_result_eq_ok.2 read.1
      have left : (TokenStream.readDecl ⟨front ++ mid, finish⟩).left = ⟨mid, finish⟩ :=
        (read_left _ _).trans (congrArg (TokenStream.mk · finish) read.2)
      rw [List.length_cons, List.replicate_succ, List.cons_append, TokenStream.session,
        TokenStream.answer, Reading.map, result, left, ih]
      rfl

end Row

end Parser

/-! ## Places of declarations -/

/-- The places at which the declarations of a row begin, if the first is at `place`. -/
def startsFrom (place : Nat) : List (List Token) → List Nat
  | [] => []
  | front :: row => place :: startsFrom (place + front.length) row

section Starts

variable {place : Nat} {row : List (List Token)}

theorem startsFrom_length : (startsFrom place row).length = row.length := by
  induction row generalizing place with
  | nil => rfl
  | cons front row ih => exact congrArg (· + 1) ih

theorem startsFrom_head : ∀ p ∈ (startsFrom place row).head?, p = place := by
  cases row with
  | nil => simp [startsFrom]
  | cons front row => simp [startsFrom]

theorem le_of_mem_startsFrom {p : Nat} (h : p ∈ startsFrom place row) :
    place ≤ p := by
  induction row generalizing place with
  | nil => exact absurd h List.not_mem_nil
  | cons front row ih =>
      rcases List.mem_cons.1 h with rfl | h
      · exact Nat.le_refl _
      · exact Nat.le_trans (Nat.le_add_right _ _) (ih h)

theorem startsFrom_concat (front : List Token) :
    startsFrom place (row ++ [front]) = startsFrom place row ++ [place + row.flatten.length] := by
  induction row generalizing place with
  | nil => rfl
  | cons first row ih =>
      rw [List.cons_append, startsFrom, ih, startsFrom, List.flatten_cons, List.length_append,
        Nat.add_assoc, List.cons_append]

variable (nonempty : ∀ front ∈ row, front ≠ [])

include nonempty

/-- A declaration of a row begins before the end of the row. -/
theorem lt_of_mem_startsFrom {p : Nat} (h : p ∈ startsFrom place row) :
    p < place + row.flatten.length := by
  induction row generalizing place with
  | nil => exact absurd h List.not_mem_nil
  | cons front row ih =>
      obtain ⟨some_token, nonempty'⟩ := List.forall_mem_cons.1 nonempty
      have first := List.length_pos_of_ne_nil some_token
      rw [List.flatten_cons, List.length_append]
      rcases List.mem_cons.1 h with rfl | h
      · omega
      · have behind := ih nonempty' h
        omega

theorem startsFrom_increasing : (startsFrom place row).Pairwise (· < ·) := by
  induction row generalizing place with
  | nil => exact .nil
  | cons front row ih =>
      obtain ⟨some_token, nonempty'⟩ := List.forall_mem_cons.1 nonempty
      have first := List.length_pos_of_ne_nil some_token
      refine List.pairwise_cons.2 ⟨fun p mem => ?_, ih nonempty'⟩
      have behind := le_of_mem_startsFrom mem
      omega

/-- Nothing is asked of the last declaration of a row, which may have been refused at once. -/
theorem startsFrom_concat_increasing (last : List Token) :
    (startsFrom place (row ++ [last])).Pairwise (· < ·) := by
  rw [startsFrom_concat, List.pairwise_append]
  refine ⟨startsFrom_increasing nonempty, List.pairwise_singleton _ _, ?_⟩
  intro p mem p' mem'
  rw [List.mem_singleton.1 mem']
  exact lt_of_mem_startsFrom nonempty mem

theorem le_of_mem_startsFrom_concat {last : List Token} {p : Nat}
    (h : p ∈ startsFrom place (row ++ [last])) : p ≤ place + row.flatten.length := by
  rw [startsFrom_concat, List.mem_append, List.mem_singleton] at h
  rcases h with mem | rfl
  · exact Nat.le_of_lt (lt_of_mem_startsFrom nonempty mem)
  · exact Nat.le_refl _

end Starts

/-! ## Replays -/

namespace Event

/-- What stands in the log for the token `t` at a place of the source: a note if a declaration
begins there, and that it is consumed if it is. -/
def ofPlace (starts : List Nat) (read : Nat) : Token × Nat → List Event
  | (t, place) =>
      (if place ∈ starts then [.declaration place t.text] else []) ++
        (if place < read then [.advance place t.kind t.text] else [])

/-- The log of a parse in which declarations were begun at the places `starts` and the first
`read` tokens were consumed, without the event before it. -/
def replay (tokens : List Token) (starts : List Nat) (read : Nat) : List Event :=
  (tokens.zipIdx.take (read + 1)).flatMap (ofPlace starts read)

end Event

section Replay

variable {finish : Token} {starts : List Nat} {read place : Nat}

/-- Steps of consumption only are events of consumption only. -/
theorem ofSteps_advance (ts : List Token) (steps : List Step) :
    Event.ofSteps finish place (ts.map .advance ++ steps) =
      (ts.zipIdx place).map (fun p => .advance p.2 p.1.kind p.1.text) ++
        Event.ofSteps finish (place + ts.length) steps := by
  induction ts generalizing place with
  | nil => rfl
  | cons t ts ih =>
      simp [Event.ofSteps, ih, Nat.add_assoc, Nat.add_comm 1]

/-- Tokens at places where no declaration begins are consumed in silence. -/
theorem flatMap_ofPlace_quiet {ts : List Token}
    (quiet : ∀ p, place ≤ p → p < place + ts.length → p ∉ starts)
    (consumed : place + ts.length ≤ read) :
    (ts.zipIdx place).flatMap (Event.ofPlace starts read) =
      (ts.zipIdx place).map fun p => .advance p.2 p.1.kind p.1.text := by
  induction ts generalizing place with
  | nil => rfl
  | cons t ts ih =>
      rw [List.length_cons] at quiet consumed
      have here : place ∉ starts := quiet place (Nat.le_refl _) (by omega)
      have quiet' : ∀ p, place + 1 ≤ p → p < place + 1 + ts.length → p ∉ starts :=
        fun p above below => quiet p (by omega) (by omega)
      have others := ih quiet' (by omega)
      rw [List.zipIdx_cons, List.flatMap_cons, List.map_cons, others, Event.ofPlace, if_neg here,
        if_pos (by omega)]
      rfl

/-- A declaration with at least one token is replayed from the place at which it begins, if none
begins at a later one of its tokens. -/
theorem ofSteps_front {front : List Token} (nonempty : front ≠ []) (here : place ∈ starts)
    (quiet : ∀ p, place < p → p < place + front.length → p ∉ starts)
    (consumed : place + front.length ≤ read) (steps : List Step) :
    Event.ofSteps finish place (.declaration front.head? :: (front.map .advance ++ steps)) =
      (front.zipIdx place).flatMap (Event.ofPlace starts read) ++
        Event.ofSteps finish (place + front.length) steps := by
  obtain ⟨t, ts, rfl⟩ := List.exists_cons_of_ne_nil nonempty
  have length : place + (t :: ts).length = place + 1 + ts.length := by
    rw [List.length_cons, Nat.add_right_comm, Nat.add_assoc]
  rw [length] at quiet consumed ⊢
  have silent := flatMap_ofPlace_quiet quiet consumed
  rw [List.zipIdx_cons, List.flatMap_cons, silent, Event.ofPlace, if_pos here, if_pos (by omega),
    List.append_assoc, ← ofSteps_advance]
  rfl

/-- A row of declarations, each with at least one token, is replayed from the places at which
they begin. -/
theorem ofSteps_declSteps {row : List (List Token)} (nonempty : ∀ front ∈ row, front ≠ [])
    (begun : ∀ p, place ≤ p → p < place + row.flatten.length → (p ∈ starts ↔ p ∈ startsFrom place row))
    (consumed : place + row.flatten.length ≤ read) (steps : List Step) :
    Event.ofSteps finish place (Parser.declSteps row ++ steps) =
      (row.flatten.zipIdx place).flatMap (Event.ofPlace starts read) ++
        Event.ofSteps finish (place + row.flatten.length) steps := by
  induction row generalizing place with
  | nil => rfl
  | cons front row ih =>
      obtain ⟨some_token, nonempty'⟩ := List.forall_mem_cons.1 nonempty
      have first := List.length_pos_of_ne_nil some_token
      rw [List.flatten_cons, List.length_append, ← Nat.add_assoc] at begun consumed ⊢
      have here : place ∈ starts := (begun place (Nat.le_refl _) (by omega)).2 List.mem_cons_self
      -- the places of its other tokens are before those at which the rest of the row begins
      have quiet : ∀ p, place < p → p < place + front.length → p ∉ starts := by
        intro p above below mem
        rcases List.mem_cons.1 ((begun p (by omega) (by omega)).1 mem) with rfl | mem
        · omega
        · have behind := le_of_mem_startsFrom mem
          omega
      have begun' : ∀ p, place + front.length ≤ p →
          p < place + front.length + row.flatten.length →
            (p ∈ starts ↔ p ∈ startsFrom (place + front.length) row) := by
        intro p above below
        rw [begun p (by omega) below, startsFrom, List.mem_cons]
        exact or_iff_right (by omega)
      have consumed' : place + front.length ≤ read := by omega
      rw [Parser.declSteps, List.flatMap_cons, List.cons_append, List.cons_append,
        List.append_assoc, ofSteps_front some_token here quiet consumed', List.zipIdx_append,
        List.flatMap_append, List.append_assoc]
      exact congrArg _ (ih nonempty' begun' consumed)

/-- Up to a token that is not consumed, a replay goes from place to place; that token is
noted if a declaration begins there. -/
theorem replay_eq (front behind : List Token) (t : Token) :
    Event.replay (front ++ t :: behind) starts front.length =
      (front.zipIdx).flatMap (Event.ofPlace starts front.length) ++
        if front.length ∈ starts then [.declaration front.length t.text] else [] := by
  -- the places up to that of the first token that is not consumed
  have places : (front ++ t :: behind).zipIdx.take (front.length + 1) =
      front.zipIdx ++ [(t, front.length)] := by
    rw [List.zipIdx_append, List.zipIdx_cons, Nat.zero_add, List.append_cons]
    apply List.take_left'
    rw [List.length_append, List.length_zipIdx, List.length_singleton]
  rw [Event.replay, places, List.flatMap_append, List.flatMap_singleton, Event.ofPlace,
    if_neg (Nat.lt_irrefl _), List.append_nil]

end Replay

/-! ## The log -/

/-- What a log says about a parse of `tokens` that came to `result`, if declarations were begun
at the places `starts` and `read` tokens were consumed. -/
structure Replayed (tokens : List Token) (result : Except SyntaxError Program)
    (starts : List Nat) (read : Nat) : Prop where
  /-- The end of the input is never consumed. -/
  proper : ∀ t ∈ tokens.take read, t.kind ≠ .endOfInput
  increasing : starts.Pairwise (· < ·)
  first : ∀ place ∈ starts.head?, place = 0
  /-- A declaration begins at a token, at the latest at the one behind those consumed. -/
  reached : ∀ place ∈ starts, place ≤ read ∧ place + 1 < tokens.length
  /-- Where the tokens are read, all are consumed, and every declaration was begun once. -/
  accepted : ∀ u, result = .ok u → read + 1 = tokens.length ∧ starts.length = u.decls.length ∧
    (TokenStream.ofTokens tokens).session (List.replicate starts.length .decl) =
      u.decls.map fun d => .ok (.decl d)
  /-- Where they are refused, the first token not consumed is reported, and all declarations
  begun were read but the last. -/
  refused : ∀ e, result = .error e → (∃ t, tokens[read]? = some t ∧ e = ⟨t.text, t.span⟩) ∧
    ∃ decls : List Decl, starts.length = decls.length + 1 ∧
      (TokenStream.ofTokens tokens).session (List.replicate starts.length .decl) =
        (decls.map fun d => .ok (.decl d)) ++ [.error e]

section Stream

open ProcLang.Parser

variable {ahead mid : List Token} {row : List (List Token × Decl)} {n : Nat}

/-- A parse that comes to the end behind a row of declarations. -/
theorem replayed_ended (lex : Lexical ahead) (run : DeclsRead nestingLimit ahead row []) :
    Replayed (ahead ++ [Token.endAt n]) (.ok ⟨row.map (·.2)⟩) (startsFrom 0 (row.map (·.1)))
      ahead.length where
  proper := by
    rw [List.take_left]
    exact lex.proper
  increasing := startsFrom_increasing run.nonempty
  first := startsFrom_head
  reached place mem := by
    have split := run.split
    rw [List.append_nil] at split
    have inside := lt_of_mem_startsFrom run.nonempty mem
    rw [← split] at inside
    rw [List.length_append, List.length_singleton]
    omega
  accepted u result := by
    obtain rfl := Except.ok.inj result
    have session := run.session (Token.endAt n) []
    rw [List.append_nil] at session
    refine ⟨by rw [List.length_append, List.length_singleton], ?_, ?_⟩
    · rw [startsFrom_length, List.length_map, List.length_map]
    · rw [ofTokens_append_endAt lex, startsFrom_length, List.length_map, session, List.map_map]
      exact List.append_nil _
  refused e result := absurd result (by simp)

/-- A parse that stops in a declaration behind a row of others. -/
theorem replayed_refused (lex : Lexical ahead) (run : DeclsRead nestingLimit ahead row mid)
    (more : headKind mid ≠ .endOfInput)
    (refused : ((nestedParsers nestingLimit).declaration mid).value = none) :
    let failed := (nestedParsers nestingLimit).declaration mid
    Replayed (ahead ++ [Token.endAt n])
      (.error (TokenStream.unexpected ⟨failed.rest, Token.endAt n⟩))
      (startsFrom 0 (row.map (·.1) ++ [failed.consumed]))
      ((row.map (·.1)).flatten.length + failed.consumed.length) := by
  intro failed
  have accounts : failed.consumed ++ failed.rest = mid := declaration_accounts nestingLimit mid
  have split : ahead = (row.map (·.1)).flatten ++ failed.consumed ++ failed.rest := by
    rw [List.append_assoc, accounts]
    exact run.split
  have lengths : ahead.length =
      (row.map (·.1)).flatten.length + failed.consumed.length + failed.rest.length := by
    rw [split, List.length_append, List.length_append]
  have begun : (row.map (·.1)).flatten.length < ahead.length := by
    obtain ⟨t, ts, hmid, -⟩ := eq_cons_of_headKind rfl more
    rw [run.split, hmid, List.length_append, List.length_cons]
    omega
  refine ⟨?_, startsFrom_concat_increasing run.nonempty _, startsFrom_head, ?_,
    fun u result => absurd result (by simp), ?_⟩
  -- what is consumed is in front of the end marker
  · rw [List.take_append_of_le_length (by omega)]
    exact fun t mem => lex.proper t (List.mem_of_mem_take mem)
  · intro place mem
    have bound := le_of_mem_startsFrom_concat run.nonempty mem
    rw [List.length_append, List.length_singleton]
    omega
  · intro e result
    obtain rfl := Except.error.inj result
    constructor
    -- the token reported is the first that the failed declaration left
    · have found := getElem?_current ((row.map (·.1)).flatten ++ failed.consumed) failed.rest
        (Token.endAt n)
      rw [← split, List.length_append] at found
      exact ⟨_, found, rfl⟩
    -- a session goes through the row and fails where the parse failed
    · have result : (TokenStream.readDecl ⟨mid, Token.endAt n⟩).result =
          .error (TokenStream.unexpected ⟨failed.rest, Token.endAt n⟩) :=
        read_result_eq_error.2 ⟨refused, (congrArg TokenStream.unexpected (read_left
          (nestedParsers nestingLimit).declaration ⟨mid, Token.endAt n⟩)).symm⟩
      have session := run.session (Token.endAt n) [.decl]
      rw [← List.replicate_succ', TokenStream.session, TokenStream.answer, Reading.map, result] at session
      refine ⟨row.map (·.2), ?_, ?_⟩
      · rw [startsFrom_length, List.length_append, List.length_map, List.length_map]
        rfl
      · rw [ofTokens_append_endAt lex, startsFrom_length, List.length_append, List.length_map,
          List.length_singleton, session, List.map_map]
        rfl

/-- The events of a row of declarations, whatever token stands behind them. -/
theorem ofSteps_row {fronts : List (List Token)} (nonempty : ∀ front ∈ fronts, front ≠ [])
    (finish t : Token) (behind : List Token) :
    Event.ofSteps finish 0 (declSteps fronts) =
      Event.replay (fronts.flatten ++ t :: behind) (startsFrom 0 fronts) fronts.flatten.length := by
  have behind_starts : fronts.flatten.length ∉ startsFrom 0 fronts := by
    intro mem
    have inside := lt_of_mem_startsFrom nonempty mem
    omega
  rw [← List.append_nil (declSteps fronts), replay_eq, if_neg behind_starts]
  exact ofSteps_declSteps nonempty (fun p _ _ => Iff.rfl) (Nat.le_of_eq (Nat.zero_add _)) []

/-- The events of a parse that comes to the end behind a row of declarations. -/
theorem ofSteps_ended (run : DeclsRead nestingLimit ahead row []) (finish : Token) :
    Event.ofSteps finish 0 (declSteps (row.map (·.1))) =
      Event.replay (ahead ++ [finish]) (startsFrom 0 (row.map (·.1))) ahead.length := by
  have split := run.split
  rw [List.append_nil] at split
  rw [split]
  exact ofSteps_row run.nonempty finish finish []

/-- The events of a parse that stops in a declaration behind a row of others. -/
theorem ofSteps_refused (run : DeclsRead nestingLimit ahead row mid)
    (more : headKind mid ≠ .endOfInput) (finish : Token) :
    let failed := (nestedParsers nestingLimit).declaration mid
    Event.ofSteps finish 0 (declSteps (row.map (·.1)) ++ failed.steps) =
      Event.replay (ahead ++ [finish]) (startsFrom 0 (row.map (·.1) ++ [failed.consumed]))
        ((row.map (·.1)).flatten.length + failed.consumed.length) := by
  intro failed
  have accounts : failed.consumed ++ failed.rest = mid := declaration_accounts nestingLimit mid
  have note : failed.steps = .declaration mid.head? :: failed.consumed.map .advance :=
    declaration_steps nestingLimit mid
  have nonempty := run.nonempty
  rw [note, run.split]
  generalize row.map (·.1) = fronts at nonempty ⊢
  generalize failed.consumed = consumed at accounts ⊢
  cases consumed with
  -- the first token of the declaration is refused: it is noted and not consumed
  | nil =>
      obtain ⟨t, ts, rfl, -⟩ := eq_cons_of_headKind rfl more
      have begun : ∀ p, 0 ≤ p → p < 0 + fronts.flatten.length →
          (p ∈ startsFrom 0 (fronts ++ [[]]) ↔ p ∈ startsFrom 0 fronts) := by
        intro p _ below
        rw [startsFrom_concat, List.mem_append, List.mem_singleton]
        exact or_iff_left (Nat.ne_of_lt below)
      have last : fronts.flatten.length ∈ startsFrom 0 (fronts ++ [[]]) := by
        rw [startsFrom_concat, Nat.zero_add]
        exact List.mem_concat_self
      rw [ofSteps_declSteps nonempty begun (Nat.le_of_eq (Nat.zero_add _)), List.append_assoc,
        List.length_nil, Nat.add_zero, List.cons_append, replay_eq, if_pos last, Nat.zero_add]
      rfl
  -- it has a token, and counts as one more of the row
  | cons t ts =>
      have nonempty' : ∀ front ∈ fronts ++ [t :: ts], front ≠ [] := by
        intro front mem
        rcases List.mem_append.1 mem with mem | mem
        · exact nonempty front mem
        · rw [List.mem_singleton.1 mem]
          exact List.cons_ne_nil _ _
      obtain ⟨t', behind, rest⟩ : ∃ t' behind, failed.rest ++ [finish] = t' :: behind :=
        List.exists_cons_of_ne_nil (List.append_ne_nil_of_right_ne_nil _ (List.cons_ne_nil _ _))
      have row' := ofSteps_row nonempty' finish t' behind
      rw [declSteps, List.flatMap_append, List.flatMap_singleton, List.flatten_append,
        List.flatten_singleton, ← rest, List.length_append] at row'
      rw [← accounts]
      simpa [declSteps] using row'

/-- Every parse is replayed from the places at which it began declarations and from the number
of tokens it consumed. -/
theorem readProgram_replayed (lex : Lexical ahead) (n : Nat) :
    ∃ starts read,
      Event.ofSteps (Token.endAt n) 0 (TokenStream.readProgram ⟨ahead, Token.endAt n⟩).steps =
          Event.replay (ahead ++ [Token.endAt n]) starts read ∧
        Replayed (ahead ++ [Token.endAt n]) (TokenStream.readProgram ⟨ahead, Token.endAt n⟩).result
          starts read := by
  obtain ⟨outcome, run, whole⟩ := @program_run nestingLimit ahead
  unfold TokenStream.readProgram TokenStream.readProgramWithin
  rw [read_steps, whole]
  cases run with
  | @ended row mid others stop =>
      have behind : Lexical mid := by
        intro t mem
        apply lex
        rw [others.split]
        exact List.mem_append_right _ mem
      -- a lexeme is no end marker, so the row has all the tokens
      obtain rfl : mid = [] := eq_nil_of_headKind behind stop
      have accepted : ((nestedParsers nestingLimit).program.read ⟨ahead, Token.endAt n⟩).result =
          .ok ⟨row.map (·.2)⟩ :=
        read_result_eq_ok.2 (congrArg Outcome.value whole)
      rw [accepted]
      exact ⟨_, _, ofSteps_ended others _, replayed_ended lex others⟩
  | @refused row mid others more none =>
      have error : ((nestedParsers nestingLimit).program.read ⟨ahead, Token.endAt n⟩).result =
          .error (TokenStream.unexpected
            ⟨((nestedParsers nestingLimit).declaration mid).rest, Token.endAt n⟩) := by
        apply read_result_eq_error.2
        rw [read_left, whole]
        exact ⟨rfl, rfl⟩
      rw [error]
      exact ⟨_, _, ofSteps_refused others more _, replayed_refused lex others more none⟩

end Stream

/-- The log replays the parse. A source with a lexical error has no event. Any other has one
event with the number of its tokens, and then those that tell its tokens again from the first
on: each token that is consumed with its place, kind and text, and before it, or before the
first one that is not, a note with its place and text if a declaration was begun there. The end
is not consumed even where the parser would log it like any other token. -/
theorem log_replays_parse (source : String) :
    (∀ e, tokenize source = .error e → parseLogged source = ([], .error e)) ∧
      ∀ tokens, tokenize source = .ok tokens →
        (TokenStream.ofTokens tokens).readProgramEagerly =
            (TokenStream.ofTokens tokens).readProgram ∧
          ∃ starts read,
            parseLogged source =
                (.lexed tokens.length :: Event.replay tokens starts read, parseSource source) ∧
              Replayed tokens (parseSource source) starts read := by
  constructor
  · intro e lexed
    unfold parseLogged
    rw [lexed]
  · intro tokens lexed
    refine ⟨readProgramEagerly_eq _, ?_⟩
    obtain ⟨ahead, n, rfl, lex, -⟩ := tokenize_eq_ok lexed
    have stream := ofTokens_append_endAt lex n
    have parsed : parseSource source = (TokenStream.readProgram ⟨ahead, Token.endAt n⟩).result := by
      unfold parseSource
      rw [lexed, ← stream]
      rfl
    obtain ⟨starts, read, events, replayed⟩ := readProgram_replayed lex n
    refine ⟨starts, read, ?_, parsed ▸ replayed⟩
    rw [parsed, ← events, parseLogged, lexed]
    simp only [stream]

/-- The tokens of `int x; int f(`. -/
def unclosedParameters : List Token :=
  [⟨⟨.typeName, "int"⟩, ⟨0, 3⟩⟩, ⟨⟨.ident, "x"⟩, ⟨4, 5⟩⟩, ⟨⟨.semicolon, ";"⟩, ⟨5, 6⟩⟩,
    ⟨⟨.typeName, "int"⟩, ⟨7, 10⟩⟩, ⟨⟨.ident, "f"⟩, ⟨11, 12⟩⟩, ⟨⟨.lparen, "("⟩, ⟨12, 13⟩⟩, Token.endAt 13]

set_option maxRecDepth 100000 in
/-- A source that ends in the head of a function, behind another declaration, and one with a
lexical error. -/
theorem log_replays_parse_unclosed :
    tokenize "int x; int f(" = .ok unclosedParameters ∧
      parseLogged "int x; int f(" =
        ([.lexed 7, .declaration 0 "int", .advance 0 .typeName "int", .advance 1 .ident "x",
          .advance 2 .semicolon ";", .declaration 3 "int", .advance 3 .typeName "int",
          .advance 4 .ident "f", .advance 5 .lparen "("], .error ⟨"", ⟨13, 13⟩⟩) ∧
      ((TokenStream.ofTokens unclosedParameters).readProgramEagerly =
          (TokenStream.ofTokens unclosedParameters).readProgram ∧
        ∃ starts read,
          parseLogged "int x; int f(" =
              (.lexed 7 :: Event.replay unclosedParameters starts read, parseSource "int x; int f(") ∧
            Replayed unclosedParameters (parseSource "int x; int f(") starts read) ∧
      parseLogged "int x; @" = ([], .error ⟨"@", ⟨7, 8⟩⟩) := by
  have lexed : tokenize "int x; int f(" = .ok unclosedParameters := by cbv
  have stray : tokenize "int x; @" = .error ⟨"@", ⟨7, 8⟩⟩ := by cbv
  exact ⟨lexed, by cbv, (log_replays_parse _).2 _ lexed, (log_replays_parse _).1 _ stray⟩

end ProcLang
