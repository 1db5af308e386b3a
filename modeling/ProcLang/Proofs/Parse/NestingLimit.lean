import ProcLang.Proofs.FrontParts
import ProcLang.Proofs.Parse.Openings

/-!
# What the nesting limit does

A parser with a limit does what the unlimited one does, up to the place where that opens
the first level above the limit; there it refuses (`Cut`). The relation is kept by every
way of reading, so it holds of the whole grammar (`nestedParsers_cut`). As the levels
opened on the way to a tree are those of the tree, the limit accepts just the trees that
open no level above it, and changes none (`limit_only_filters`).
-/

set_option autoImplicit false

namespace ProcLang

open TokenReader

/-! ## The limit cuts a run short -/

/-- A run of a parser with a limit against an unlimited one: no level above the limit is
opened and the outcomes are the same, or the first level above it is the next one, and the
parser with the limit refuses the token at which it was opened. -/
def CutAt {α : Type} (limit : Nat) (free : Trace α) (limited : Outcome α) : Prop :=
  ((∀ l ∈ free.opened, l.level ≤ limit) ∧ limited = free.toOutcome) ∨
    ∃ l, free.opened.find? (limit < ·.level) = some l ∧ l.level = limit + 1 ∧
      limited.value = none ∧ limited.rest = l.ahead

/-- With `depth` levels open, the second parser does what the first does, cut short at the
limit. -/
def Cut (limit depth : Nat) {α : Type} (p : FreeParser α) (q : Parser α) : Prop :=
  ∀ ts, CutAt limit (p depth ts) (q ts)

/-- Where no level above the limit was opened there is none to be found. -/
theorem find?_eq_none_of_le {limit : Nat} {opened : List LevelOpened}
    (h : ∀ l ∈ opened, l.level ≤ limit) : opened.find? (limit < ·.level) = none := by
  rw [List.find?_eq_none]
  intro l mem
  rw [decide_eq_true_eq, Nat.not_lt]
  exact h l mem

namespace Cut

variable {limit depth : Nat} {α β σ : Type}

theorem flat (p : Parser α) : Cut limit depth (.flat p) p := by
  intro ts
  exact .inl ⟨fun l mem => absurd mem List.not_mem_nil, rfl⟩

theorem bind {p : FreeParser α} {q : Parser α} {f : α → FreeParser β} {g : α → Parser β}
    (hp : Cut limit depth p q) (hf : ∀ a, Cut limit depth (f a) (g a)) :
    Cut limit depth (p >>= f) (q >>= g) := by
  intro ts
  rcases hp ts with ⟨within, same⟩ | ⟨l, first, level, refused, left⟩
  · have values : (q ts).value = (p depth ts).value := congrArg Outcome.value same
    cases hvalue : (p depth ts).value with
    | none =>
        rw [FreeParser.bind_none hvalue, Parser.bind_none (values.trans hvalue), same]
        exact .inl ⟨within, rfl⟩
    | some a =>
        rw [FreeParser.bind_some hvalue, Parser.bind_some (values.trans hvalue), same]
        rcases hf a (p depth ts).rest with ⟨within', same'⟩ | ⟨l, first, level, refused, left⟩
        · refine .inl ⟨List.forall_mem_append.2 ⟨within, within'⟩, ?_⟩
          rw [same']
        · refine .inr ⟨l, ?_, level, refused, left⟩
          rw [List.find?_append, find?_eq_none_of_le within, first]
          rfl
  -- the level above the limit is opened in the first part
  · rw [Parser.bind_none refused]
    refine .inr ⟨l, ?_, level, rfl, left⟩
    cases hvalue : (p depth ts).value with
    | none =>
        rw [FreeParser.bind_none hvalue]
        exact first
    | some a =>
        rw [FreeParser.bind_some hvalue, List.find?_append, first]
        rfl

theorem choose {accepts : TokenKind → Option β} {taken : β → String → FreeParser α}
    {taken' : β → String → Parser α} {otherwise : FreeParser α} {otherwise' : Parser α}
    (htaken : ∀ b text, Cut limit depth (taken b text) (taken' b text))
    (hotherwise : Cut limit depth otherwise otherwise') :
    Cut limit depth (choose accepts taken otherwise) (choose accepts taken' otherwise') := by
  apply (flat Parser.kindAhead).bind
  intro kind
  cases accepts kind with
  | none => exact hotherwise
  | some b => exact (flat Parser.advance).bind (htaken b)

theorem loop {round : σ → FreeParser (Round σ α)} {round' : σ → Parser (Round σ α)}
    (hround : ∀ s, Cut limit depth (round s) (round' s)) (s : σ) :
    Cut limit depth (TokenReader.loop round s) (TokenReader.loop round' s) := by
  intro ts
  show CutAt limit (FreeParser.iterate round s depth ts) (Parser.iterate round' s ts)
  -- the induction is on the tokens ahead; until the cut both loops go through the same rounds
  fun_induction FreeParser.iterate round s depth ts with
  | case1 s ts first hvalue =>
      rcases hround s ts with ⟨within, same⟩ | ⟨l, above, level, refused, left⟩
      · rw [Parser.iterate, same]
        simp only [first, hvalue]
        exact .inl ⟨within, rfl⟩
      · rw [Parser.iterate]
        simp only [refused]
        exact .inr ⟨l, above, level, rfl, left⟩
  | case2 s ts first a hvalue =>
      rcases hround s ts with ⟨within, same⟩ | ⟨l, above, level, refused, left⟩
      · rw [Parser.iterate, same]
        simp only [first, hvalue]
        exact .inl ⟨within, rfl⟩
      · rw [Parser.iterate]
        simp only [refused]
        exact .inr ⟨l, above, level, rfl, left⟩
  | case3 s ts first next hvalue shorter others tail =>
      rcases hround s ts with ⟨within, same⟩ | ⟨l, above, level, refused, left⟩
      · rw [Parser.iterate, same]
        simp only [first, hvalue]
        rw [if_pos shorter]
        rcases tail with ⟨within', same'⟩ | ⟨l, above, level, refused, left⟩
        · refine .inl ⟨List.forall_mem_append.2 ⟨within, within'⟩, ?_⟩
          rw [same']
        · refine .inr ⟨l, ?_, level, refused, left⟩
          rw [List.find?_append, find?_eq_none_of_le within]
          exact above
      · rw [Parser.iterate]
        simp only [refused]
        refine .inr ⟨l, ?_, level, rfl, left⟩
        rw [List.find?_append, above]
        rfl
  | case4 s ts first next hvalue stuck =>
      rcases hround s ts with ⟨within, same⟩ | ⟨l, above, level, refused, left⟩
      · rw [Parser.iterate, same]
        simp only [first, hvalue]
        rw [if_neg stuck]
        exact .inl ⟨within, rfl⟩
      · rw [Parser.iterate]
        simp only [refused]
        exact .inr ⟨l, above, level, rfl, left⟩

theorem compatible : @Compatible FreeParser Parser _ _ fun _ p q => Cut limit depth p q :=
  Primitive.compatible
    { pure := fun a => flat (Parser.accept a)
      refuse := flat Parser.refuse
      kindAhead := flat Parser.kindAhead
      noteDeclaration := flat Parser.noteDeclaration
      lookingAt := fun pattern _ => flat (Parser.lookingAt pattern)
      bind := bind
      choose := fun _ => choose
      loop := loop }

/-- A level up to the limit is opened on both sides. -/
theorem deeper {p : FreeParser α} {q : Parser α} (room : depth < limit)
    (h : Cut limit (depth + 1) p q) : Cut limit depth p.deeper q := by
  intro ts
  rcases h ts with ⟨within, same⟩ | ⟨l, first, level, refused, left⟩
  · exact .inl ⟨List.forall_mem_cons.2 ⟨room, within⟩, same⟩
  · refine .inr ⟨l, ?_, level, refused, left⟩
    show (⟨depth + 1, ts⟩ :: (p (depth + 1) ts).opened).find? _ = some l
    have within : decide (limit < depth + 1) = false := by
      rw [decide_eq_false_iff_not, Nat.not_lt]
      exact room
    rw [List.find?_cons]
    simp only [within]
    exact first

/-- The first level above the limit is refused. -/
theorem deeper_limit (p : FreeParser α) : Cut limit limit p.deeper TokenReader.refuse := by
  intro ts
  refine .inr ⟨⟨limit + 1, ts⟩, ?_, rfl, rfl, rfl⟩
  show (⟨limit + 1, ts⟩ :: (p (limit + 1) ts).opened).find? _ = _
  rw [List.find?_cons_of_pos (by simp)]

end Cut

/-- With `depth` levels open, the parsers for the levels that are left do what the unlimited
parsers do, cut short at the limit. -/
theorem nestedParsers_cut {limit depth : Nat} (n : Nat) (h : depth + n = limit) :
    Nested.Related (fun _ p q => Cut limit depth p q) unlimitedParsers (nestedParsers n) := by
  induction n generalizing depth with
  | zero =>
      obtain rfl : depth = limit := h
      rw [unlimitedParsers_eq]
      exact ⟨fun least => .deeper_limit (unlimitedParsers.operatorExpr least),
        .deeper_limit unlimitedParsers.unaryExpr, .deeper_limit unlimitedParsers.statement⟩
  | succ n ih =>
      have room : depth < limit := by omega
      have inside := ih (show depth + 1 + n = limit by omega)
      rw [unlimitedParsers_eq]
      exact ⟨fun least => .deeper room (Cut.compatible.operatorExpr inside least),
        .deeper room (Cut.compatible.unaryExpr inside),
        .deeper room (Cut.compatible.statement inside)⟩

theorem program_cut (limit : Nat) (stream : TokenStream) :
    CutAt limit stream.traceProgram ((nestedParsers limit).program stream.ahead) :=
  Cut.compatible.program (nestedParsers_cut limit (Nat.zero_add limit)) stream.ahead

/-! ## Levels are opened in the order of the tokens -/

/-- The levels of a run over `ts` were opened one behind the other, from the tokens given to
those left; in a run that succeeds, a token was consumed in each of them. -/
structure Descends {α : Type} (ts : List Token) (run : Trace α) : Prop where
  rest : run.rest <:+ ts
  given : ∀ l ∈ run.opened, l.ahead <:+ ts
  left : ∀ l ∈ run.opened, run.rest <:+ l.ahead
  ordered : run.opened.Pairwise fun l l' => l'.ahead <:+ l.ahead
  consumed : run.value ≠ none → ∀ l ∈ run.opened, run.rest.length < l.ahead.length

namespace Descends

variable {α β : Type} {ts : List Token}

/-- A run that fails has nothing to say about what was consumed. -/
theorem failed {run : Trace α} (h : Descends ts run) :
    Descends ts (Trace.mk ⟨(none : Option β), run.rest, run.steps⟩ run.opened) :=
  ⟨h.rest, h.given, h.left, h.ordered, fun succeeded => absurd rfl succeeded⟩

/-- The levels of a run that goes on behind another were opened behind those of the other. -/
theorem append {run : Trace α} {further : Trace β} (h : Descends ts run)
    (succeeded : run.value ≠ none) (h' : Descends run.rest further) {steps : List Step} :
    Descends ts
      (Trace.mk ⟨further.value, further.rest, steps⟩ (run.opened ++ further.opened)) where
  rest := h'.rest.trans h.rest
  given := List.forall_mem_append.2 ⟨h.given, fun l mem => (h'.given l mem).trans h.rest⟩
  left := List.forall_mem_append.2 ⟨fun l mem => h'.rest.trans (h.left l mem), h'.left⟩
  ordered := by
    rw [List.pairwise_append]
    refine ⟨h.ordered, h'.ordered, ?_⟩
    intro l mem l' mem'
    exact (h'.given l' mem').trans (h.left l mem)
  consumed succeeded' := by
    rw [List.forall_mem_append]
    refine ⟨?_, h'.consumed succeeded'⟩
    intro l mem
    exact Nat.lt_of_le_of_lt h'.rest.length_le (h.consumed succeeded l mem)

end Descends

/-- A free parser that opens its levels in the order of the tokens. -/
def FreeParser.Orderly {α : Type} (p : FreeParser α) : Prop :=
  ∀ depth ts, Descends ts (p depth ts)

namespace FreeParser.Orderly

variable {α β σ : Type}

theorem flat {p : Parser α} (rest : ∀ ts, (p ts).rest <:+ ts) : (flat p).Orderly := by
  intro depth ts
  exact ⟨rest ts, fun l mem => absurd mem List.not_mem_nil, fun l mem => absurd mem List.not_mem_nil,
    List.Pairwise.nil, fun _ l mem => absurd mem List.not_mem_nil⟩

theorem bind {p : FreeParser α} {f : α → FreeParser β} (hp : p.Orderly) (hf : ∀ a, (f a).Orderly) :
    (p >>= f).Orderly := by
  intro depth ts
  have first := hp depth ts
  cases hvalue : (p depth ts).value with
  | none =>
      rw [bind_none hvalue]
      exact first.failed
  | some a =>
      rw [bind_some hvalue]
      exact first.append (hvalue ▸ Option.some_ne_none a) (hf a depth (p depth ts).rest)

theorem advance : (TokenReader.advance : FreeParser String).Orderly := by
  apply flat
  intro ts
  cases ts with
  | nil => exact List.suffix_rfl
  | cons t ts => exact List.suffix_cons t ts

theorem choose {accepts : TokenKind → Option β} {taken : β → String → FreeParser α}
    {otherwise : FreeParser α} (htaken : ∀ b text, (taken b text).Orderly)
    (hotherwise : otherwise.Orderly) : (choose accepts taken otherwise).Orderly := by
  apply (flat fun _ => List.suffix_rfl).bind
  intro kind
  cases accepts kind with
  | none => exact hotherwise
  | some b => exact advance.bind (htaken b)

theorem loop {round : σ → FreeParser (Round σ α)} (hround : ∀ s, (round s).Orderly) (s : σ) :
    (TokenReader.loop round s : FreeParser α).Orderly := by
  intro depth ts
  show Descends ts (iterate round s depth ts)
  -- the induction is on the tokens ahead; each round goes on behind the one before
  fun_induction iterate round s depth ts with
  | case1 s ts first hvalue => exact (hround s depth ts).failed
  | case2 s ts first a hvalue =>
      have once := hround s depth ts
      have consumed := once.consumed (hvalue ▸ Option.some_ne_none (Round.done a))
      exact ⟨once.rest, once.given, once.left, once.ordered, fun _ => consumed⟩
  | case3 s ts first next hvalue shorter others tail =>
      exact (hround s depth ts).append (hvalue ▸ Option.some_ne_none (Round.again next)) tail
  | case4 s ts first next hvalue stuck => exact (hround s depth ts).failed

theorem compatible : @Compatible FreeParser FreeParser _ _ fun _ p _ => p.Orderly :=
  Primitive.compatible
    { pure := fun _ => flat fun _ => List.suffix_rfl
      refuse := flat fun _ => List.suffix_rfl
      kindAhead := flat fun _ => List.suffix_rfl
      noteDeclaration := flat fun _ => List.suffix_rfl
      lookingAt := fun _ _ => flat fun _ => List.suffix_rfl
      bind := bind
      choose := fun _ => choose
      loop := loop }

/-- A level is opened in front of all that are opened inside it. -/
theorem deeper {p : FreeParser α} (h : p.Orderly) (consumes : ∀ k, AgreeUpTo k p p) :
    p.deeper.Orderly := by
  intro depth ts
  have inside := h (depth + 1) ts
  obtain ⟨-, -, shorter⟩ := consumes ts.length (depth + 1) ts (Nat.le_refl _)
  refine ⟨inside.rest, List.forall_mem_cons.2 ⟨List.suffix_rfl, inside.given⟩,
    List.forall_mem_cons.2 ⟨inside.rest, inside.left⟩, ?_,
    fun succeeded => List.forall_mem_cons.2 ⟨shorter succeeded, inside.consumed succeeded⟩⟩
  show List.Pairwise _ (⟨depth + 1, ts⟩ :: (p (depth + 1) ts).opened)
  rw [List.pairwise_cons]
  exact ⟨inside.given, inside.ordered⟩

theorem unfoldedParsers (n : Nat) :
    Nested.Related (fun _ p (_ : FreeParser _) => p.Orderly) (unfoldedParsers n)
      (ProcLang.unfoldedParsers n) := by
  induction n with
  | zero => exact ⟨fun _ => compatible.refuse, compatible.refuse, compatible.refuse⟩
  | succ n ih =>
      have self (k : Nat) := unfoldedParsers_self k n
      exact ⟨fun least => (compatible.operatorExpr ih least).deeper fun k =>
          agreeUpTo_operatorExpr (self k).1 least,
        (compatible.unaryExpr ih).deeper fun k => agreeUpTo_unaryExpr (self k).1,
        (compatible.statement ih).deeper fun k => agreeUpTo_statement (self k).1 (self k).2⟩

/-- Programs open their levels in the order of the tokens. -/
theorem program (stream : TokenStream) : Descends stream.ahead stream.traceProgram := by
  have unfolded (k : Nat) := unfoldedParsers (2 * k)
  have agree (k : Nat) := unlimitedParsers_related k (2 * k) (Nat.le_refl _)
  have nested : Nested.Related (fun _ p (_ : FreeParser _) => p.Orderly) unlimitedParsers
      unlimitedParsers :=
    ⟨fun least => forall_of_agreeBelow fun k => ⟨_, (unfolded k).operand least, (agree k).operand least⟩,
      forall_of_agreeBelow fun k => ⟨_, (unfolded k).unary, (agree k).unary⟩,
      forall_of_agreeBelow fun k => ⟨_, (unfolded k).stmt, (agree k).stmt⟩⟩
  exact compatible.program nested 0 stream.ahead

end FreeParser.Orderly

/-! ## Readings -/

/-- A reading that ended with a refusal of the first of the tokens `ahead`, or of the end if
there are none. -/
def Reading.RefusedAt {α : Type} (r : Reading α) (ahead : List Token) : Prop :=
  r.left.ahead = ahead ∧ r.result = .error r.left.unexpected

variable {limit : Nat} {stream : TokenStream}

/-- Where no level above the limit is opened, the limit changes nothing. -/
theorem reading_within (within : ∀ l ∈ stream.traceProgram.opened, l.level ≤ limit) :
    (stream.readProgramWithin limit).result = stream.readProgramFreely.result ∧
      (stream.readProgramWithin limit).left = stream.readProgramFreely.left := by
  rcases program_cut limit stream with ⟨-, same⟩ | ⟨l, first, -⟩
  · have runs : Parser.read (nestedParsers limit).program stream = stream.readProgramFreely := by
      show Parser.read _ _ = Parser.read _ _
      unfold Parser.read
      rw [same]
      rfl
    exact ⟨congrArg Reading.result runs, congrArg Reading.left runs⟩
  · rw [find?_eq_none_of_le within] at first
    exact absurd first.symm (Option.some_ne_none l)

/-- Where the first level above the limit is opened, the reading is refused; that is not
behind the place where the unlimited reading ends. -/
theorem reading_above {l : LevelOpened}
    (first : stream.traceProgram.opened.find? (limit < ·.level) = some l) :
    l.level = limit + 1 ∧ (stream.readProgramWithin limit).RefusedAt l.ahead ∧
      l.ahead <:+ stream.ahead ∧ stream.readProgramFreely.left.ahead <:+ l.ahead ∧
        ∀ l' ∈ stream.traceProgram.opened, limit < l'.level → l'.ahead <:+ l.ahead := by
  have descends := FreeParser.Orderly.program stream
  have mem := List.mem_of_find?_eq_some first
  rcases program_cut limit stream with ⟨within, -⟩ | ⟨l', first', level, refused, left⟩
  · rw [find?_eq_none_of_le within] at first
    exact absurd first.symm (Option.some_ne_none l)
  · obtain rfl : l' = l := Option.some.inj (first'.symm.trans first)
    have reading := Parser.read_left (nestedParsers limit).program stream
    rw [left] at reading
    refine ⟨level, ⟨congrArg TokenStream.ahead reading, ?_⟩, descends.given _ mem, ?_, ?_⟩
    · exact Parser.read_result_eq_error.2 ⟨refused, rfl⟩
    · rw [TokenStream.readProgramFreely_left]
      exact descends.left _ mem
    · intro l' mem' above
      exact le_of_find?_eq_some (r := fun l l' => l'.ahead <:+ l.ahead) (fun _ => List.suffix_rfl)
        descends.ordered first l' mem' (decide_eq_true above)

/-- The first opening of a tree above the limit is where the run opens its first level above
the limit. -/
theorem first_opened (limit : Nat) {u : Program} (accepted : stream.readProgramFreely.result = .ok u) :
    stream.traceProgram.opened.find? (limit < ·.level) =
      (u.openings.find? (limit < ·.level)).map (Opening.within stream.ahead) := by
  have opened := (opened_of_accepted (TokenStream.readProgramFreely_eq_ok.1 accepted)).1
  unfold TokenStream.traceProgram
  rw [opened, List.find?_map]
  rfl

/-- The levels of an accepted tree are those of the run. -/
theorem opened_le_iff {u : Program} (accepted : stream.readProgramFreely.result = .ok u) :
    (∀ l ∈ stream.traceProgram.opened, l.level ≤ limit) ↔ u.levels ≤ limit := by
  obtain ⟨opened, levels⟩ := opened_of_accepted (TokenStream.readProgramFreely_eq_ok.1 accepted)
  unfold TokenStream.traceProgram
  rw [opened, List.forall_mem_map]
  exact levels limit

/-- A tree that opens more levels than the limit is not read: its first opening above the limit
is refused. -/
theorem reading_of_levels_gt {u : Program} (accepted : stream.readProgramFreely.result = .ok u)
    (levels : limit < u.levels) :
    ∃ o, u.openings.find? (limit < ·.level) = some o ∧ o.level = limit + 1 ∧
      (∀ o' ∈ u.openings, limit < o'.level → o.place ≤ o'.place) ∧
        o.place < stream.ahead.length ∧
          (stream.readProgramWithin limit).RefusedAt (stream.ahead.drop o.place) := by
  have first := first_opened limit accepted
  cases hfirst : u.openings.find? (limit < ·.level) with
  | none =>
      rw [hfirst, Option.map_none, List.find?_eq_none] at first
      have within : u.levels ≤ limit := by
        rw [← opened_le_iff accepted]
        intro l mem
        exact Nat.not_lt.1 fun above => first l mem (decide_eq_true above)
      exact absurd levels (Nat.not_lt.2 within)
  | some o =>
      rw [hfirst, Option.map_some] at first
      obtain ⟨level, refused, -⟩ := reading_above first
      refine ⟨o, rfl, level, ?_, ?_, refused⟩
      · intro o' mem above
        exact le_of_find?_eq_some (r := fun o o' => o.place ≤ o'.place) (fun _ => Nat.le_refl _)
          (u.extent.ordered 0 0) hfirst o' mem (decide_eq_true above)
      -- the phrase that opens the level consumed the token that is refused
      · have value := TokenStream.readProgramFreely_eq_ok.1 accepted
        have consumed := (FreeParser.Orderly.program stream).consumed
          (value ▸ Option.some_ne_none u) _ (List.mem_of_find?_eq_some first)
        have proper : 0 < (stream.ahead.drop o.place).length := Nat.zero_lt_of_lt consumed
        rw [List.length_drop] at proper
        exact Nat.lt_of_sub_pos proper

/-- The nesting limit only filters. The unlimited parsers are the ones that satisfy the
recursion without a limit, and against them the reading with the limit does this:

a tree that opens no more levels than the limit is read as it is; where a tree opens more,
its first opening above the limit, which is the next level, is refused; where the unlimited
reading fails, so does the other, with the same error if no level above the limit was opened,
and otherwise where the first of these was opened, which is not behind. No tree is read that
would not be read without the limit. -/
theorem limit_only_filters :
    (∀ parsers : Nested FreeParser, parsers = parsers.opening ↔ parsers = unlimitedParsers) ∧
    ∀ tokens : List Token,
      let stream := TokenStream.ofTokens tokens
      let free := stream.readProgramFreely
      let real := stream.readProgram
      (∀ u, free.result = .ok u →
        (u.levels ≤ nestingLimit → real.result = .ok u ∧ real.left = free.left) ∧
        (nestingLimit < u.levels →
          ∃ o, u.openings.find? (nestingLimit < ·.level) = some o ∧
            o.level = nestingLimit + 1 ∧
            (∀ o' ∈ u.openings, nestingLimit < o'.level → o.place ≤ o'.place) ∧
            o.place < stream.ahead.length ∧ real.RefusedAt (stream.ahead.drop o.place))) ∧
      (∀ e, free.result = .error e →
        ((∀ l ∈ stream.traceProgram.opened, l.level ≤ nestingLimit) →
          real.result = .error e ∧ real.left = free.left) ∧
        (∀ l, stream.traceProgram.opened.find? (nestingLimit < ·.level) = some l →
          l.level = nestingLimit + 1 ∧
          (∀ l' ∈ stream.traceProgram.opened, nestingLimit < l'.level → l'.ahead <:+ l.ahead) ∧
          real.RefusedAt l.ahead ∧ l.ahead <:+ stream.ahead ∧ free.left.ahead <:+ l.ahead)) ∧
      ∀ u, real.result = .ok u → free.result = .ok u := by
  constructor
  · intro parsers
    constructor
    · exact eq_unlimitedParsers
    · rintro rfl
      exact unlimitedParsers_eq
  intro tokens stream free real
  refine ⟨?_, ?_, ?_⟩
  · intro u accepted
    constructor
    · intro levels
      obtain ⟨result, left⟩ := reading_within ((opened_le_iff accepted).2 levels)
      exact ⟨result.trans accepted, left⟩
    · exact reading_of_levels_gt accepted
  · intro e failed
    constructor
    · intro within
      obtain ⟨result, left⟩ := reading_within within
      exact ⟨result.trans failed, left⟩
    · intro l first
      obtain ⟨level, refused, given, left, order⟩ := reading_above first
      exact ⟨level, order, refused, given, left⟩
  · intro u accepted
    rcases program_cut nestingLimit stream with ⟨within, -⟩ | ⟨l, -, -, refused, -⟩
    · exact (reading_within within).1.symm.trans accepted
    · have value := Parser.read_result_eq_ok.1 accepted
      rw [refused] at value
      exact absurd value.symm (Option.some_ne_none u)

end ProcLang
