import Mathlib
import ProcLang.Proofs.Lexical.Concatenation
import ProcLang.Proofs.Lexical.LongestMatch

/-!
# Tokens and gaps tile the source

A source that splits into tokens is made of their texts and of the gaps before, between and
behind them, and each token is the longest match where it stands (`tokenize_lossless`).

`Placed` says how the tokens stand in a text, one behind the other: it is found by following
the pieces of the text (`placed_of_placePieces`), and every place in the list of tokens is
found in it again (`Placed.split`).
-/

set_option autoImplicit false

namespace ProcLang

/-- The text of a lexeme stands before `rest` where nothing longer is matched, and where no
comment begins. -/
structure Munched (kind : TokenKind) (text rest : List Char) : Prop where
  spells : kind.Spells text
  longest : ∀ longer, longer <+: text ++ rest → IsMatch longer → longer.length ≤ text.length
  noComment : ¬"//".toList <+: text ++ rest

/-- The tokens of a text that begins at byte `offset`: each stands behind a gap, and the end
marker behind the last gap. -/
inductive Placed : Nat → List Char → List Token → Prop where
  | finish (offset : Nat) (gap : List Char) :
      IsGap gap [] → Placed offset gap [Token.endAt (offset + utf8Length gap)]
  | token (offset : Nat) (gap text rest : List Char) (kind : TokenKind) (ts : List Token) :
      IsGap gap (text ++ rest) → Munched kind text rest →
        Placed (offset + utf8Length gap + utf8Length text) rest ts →
          Placed offset (gap ++ (text ++ rest))
            (⟨⟨kind, String.ofList text⟩,
              ⟨offset + utf8Length gap, offset + utf8Length gap + utf8Length text⟩⟩ :: ts)

/-! ## The pieces of a text place its tokens -/

/-- A run of blanks makes a gap longer. -/
theorem IsGap.blanks {run gap behind : List Char} (blanks : ∀ c ∈ run, isBlank c = true)
    (h : IsGap gap behind) : IsGap (run ++ gap) behind := by
  induction run with
  | nil => exact h
  | cons c run ih =>
      obtain ⟨blank, blanks⟩ := List.forall_mem_cons.1 blanks
      exact .blank c (run ++ gap) behind blank (ih blanks)

/-- A piece of spacing makes any gap behind it longer. -/
theorem isGap_of_spacing {c : Char} {more rest : List Char}
    (found : firstPiece c (more ++ rest) = .spacing (c :: more)) {gap behind : List Char}
    (split : rest = gap ++ behind) (h : IsGap gap behind) : IsGap (c :: more ++ gap) behind := by
  rcases firstPiece_spacing found with ⟨blank, text⟩ | ⟨⟨body, comment⟩, text⟩
  · apply h.blanks
    rw [text, List.forall_mem_cons]
    exact ⟨blank, List.all_eq_true.1 List.all_takeWhile⟩
  -- the comment takes what is no line feed, so a line feed or the end stands behind it
  · have taken : c :: more = '/' :: '/' :: body.takeWhile (· ≠ '\n') := by
      rw [text, ← comment]
      rfl
    have left : rest = body.dropWhile (· ≠ '\n') := by
      rw [← List.cons_append, taken] at comment
      have same : body = body.takeWhile (· ≠ '\n') ++ rest :=
        (List.append_right_inj ['/', '/']).1 comment
      have parts := List.takeWhile_append_dropWhile (p := (· ≠ '\n')) (l := body)
      exact List.append_cancel_left (same.symm.trans parts.symm)
    rw [taken]
    refine .comment _ gap behind ?_ ?_ h
    · intro mem
      have := List.all_eq_true.1 List.all_takeWhile _ mem
      simp at this
    · intro d mem
      have stopped := List.head?_dropWhile_not (· ≠ '\n') body
      rw [← split, left] at mem
      rw [Option.mem_def.1 mem] at stopped
      simpa using stopped

/-- What stands before the first gap of a text may be gained for the gap. -/
theorem Placed.skip {offset : Nat} {run cs : List Char} {ts : List Token}
    (gains : ∀ gap behind, cs = gap ++ behind → IsGap gap behind → IsGap (run ++ gap) behind)
    (h : Placed (offset + utf8Length run) cs ts) : Placed offset (run ++ cs) ts := by
  cases h with
  | finish _ gap isGap =>
      have longer := Placed.finish offset (run ++ cs) (gains cs [] (List.append_nil cs).symm isGap)
      rwa [utf8Length_append, ← Nat.add_assoc] at longer
  | token _ gap text rest kind ts isGap munched behind =>
      rw [Nat.add_assoc offset, ← utf8Length_append] at behind ⊢
      rw [← List.append_assoc]
      exact .token offset (run ++ gap) text rest kind ts (gains gap _ rfl isGap) munched behind

/-- What is found as a lexeme is the longest match. -/
theorem munched_of_found {c : Char} {more rest : List Char} {kind : TokenKind}
    (found : firstPiece c (more ++ rest) = .lexeme kind (c :: more)) :
    Munched kind (c :: more) rest where
  spells := firstPiece_spells found
  longest _ front matched := firstPiece_longest found front matched
  noComment := not_comment_of_found found

/-- Tokens that are found piece by piece are placed in the text. -/
theorem placed_of_placePieces {offset : Nat} {cs : List Char} {ts : List Token}
    (h : placePieces offset (pieces cs) = .ok ts) : Placed offset cs ts := by
  revert offset ts
  refine pieces_induction (motive := fun cs ps => ∀ {offset ts}, placePieces offset ps = .ok ts →
    Placed offset cs ts) ?_ ?_ cs
  · intro offset ts h
    obtain rfl := Except.ok.inj h
    exact .finish offset [] (.nothing [])
  · intro c more rest text ih offset ts h
    generalize found : firstPiece c (more ++ rest) = p at text h
    cases p with
    | spacing text' =>
        obtain rfl : text' = c :: more := text
        exact Placed.skip (fun gap behind => isGap_of_spacing found) (ih h)
    | lexeme kind text' =>
        obtain rfl : text' = c :: more := text
        simp only [placePieces, Piece.text] at h
        cases hothers : placePieces (offset + utf8Length (c :: more)) (pieces rest) with
        | error e =>
            rw [hothers] at h
            cases h
        | ok ts' =>
            rw [hothers] at h
            obtain rfl := Except.ok.inj h
            exact .token offset [] (c :: more) rest kind ts' (.nothing _) (munched_of_found found)
              (ih hothers)
    | stray text' => cases h

/-! ## Places in the list of tokens -/

/-- Where the last of some tokens stops, or `offset` if there are none. -/
def stopBehind (offset : Nat) (ts : List Token) : Nat :=
  (ts.getLast?.map fun t => t.span.stop).getD offset

theorem stopBehind_cons (offset : Nat) (t : Token) (ts : List Token) :
    stopBehind offset (t :: ts) = stopBehind t.span.stop ts := by
  unfold stopBehind
  rw [List.getLast?_cons]
  cases ts.getLast? with
  | none => rfl
  | some t' => rfl

/-- Every token stands behind a gap, which begins where the token before it stops. -/
theorem Placed.split {offset : Nat} {cs : List Char} {earlier later : List Token} {t : Token}
    (h : Placed offset cs (earlier ++ t :: later)) :
    ∃ front gap rest, cs = front ++ (gap ++ (t.text.toList ++ rest)) ∧
      stopBehind offset earlier = offset + utf8Length front ∧
      t.span = ⟨offset + utf8Length (front ++ gap),
        offset + utf8Length (front ++ gap) + utf8Length t.text.toList⟩ ∧
      IsGap gap (t.text.toList ++ rest) ∧
      (later ≠ [] → Munched t.kind t.text.toList rest) := by
  generalize hts : earlier ++ t :: later = ts at h
  induction h generalizing earlier with
  | finish offset gap isGap =>
      obtain ⟨rfl, rfl, rfl⟩ : earlier = [] ∧ t = Token.endAt (offset + utf8Length gap) ∧ later = [] := by
        cases earlier with
        | nil =>
            obtain ⟨ht, hlater⟩ := List.cons.inj hts
            exact ⟨rfl, ht, hlater⟩
        | cons e earlier =>
            obtain ⟨-, none⟩ := List.cons.inj hts
            simp at none
      exact ⟨[], gap, [], by simp [Token.endAt], rfl, rfl, isGap, fun more => absurd rfl more⟩
  | token offset gap text rest kind ts isGap munched behind ih =>
      cases earlier with
      | nil =>
          obtain ⟨rfl, rfl⟩ := List.cons.inj hts
          rw [← String.toList_ofList (l := text)] at isGap munched
          refine ⟨[], gap, rest, ?_, rfl, ?_, isGap, fun _ => munched⟩
          · simp
          · simp
      | cons e earlier =>
          obtain ⟨rfl, others⟩ := List.cons.inj hts
          obtain ⟨front, gap', rest', whole, stop, span, isGap', munched'⟩ := ih others
          refine ⟨gap ++ text ++ front, gap', rest', ?_, ?_, ?_, isGap', munched'⟩
          · rw [whole]
            simp only [List.append_assoc]
          · rw [stopBehind_cons, stop]
            simp only [utf8Length_append, Nat.add_assoc]
          · rw [span]
            simp only [utf8Length_append, Nat.add_assoc]

/-- No token begins before the text, or before the one in front of it stops. -/
theorem Placed.ordered {offset : Nat} {cs : List Char} {ts : List Token} (h : Placed offset cs ts) :
    (∀ t ∈ ts, offset ≤ t.span.start) ∧
      ts.Pairwise fun t t' => t.span.stop ≤ t'.span.start := by
  induction h with
  | finish offset gap isGap =>
      refine ⟨?_, List.pairwise_singleton _ _⟩
      intro t mem
      obtain rfl := List.mem_singleton.1 mem
      exact Nat.le_add_right _ _
  | token offset gap text rest kind ts isGap munched behind ih =>
      obtain ⟨later, ordered⟩ := ih
      refine ⟨List.forall_mem_cons.2 ⟨Nat.le_add_right _ _, ?_⟩, List.pairwise_cons.2 ⟨later, ordered⟩⟩
      intro t mem
      have := later t mem
      omega

/-! ## The tokens of a source -/

/-- A token of `source`: its text is the slice of the source at its span, the longest text
there that any pattern matches; the pattern of its kind does, no other does but that of
identifiers, and alone the text is this one token. -/
structure TokenOf (source : String) (t : Token) : Prop where
  proper : t.kind ≠ .endOfInput
  nonempty : t.text ≠ ""
  within : t.span.Within source
  slice : t.span.slice source = t.text
  matched : t.kind.Matches t.text.toList
  preferred : ∀ kind : TokenKind, kind.Matches t.text.toList → kind = t.kind ∨ kind = .ident
  longest : ∀ longer, longer <+: textFrom source t.span.start → IsMatch longer →
    longer.length ≤ t.text.length
  noComment : ¬"//".toList <+: textFrom source t.span.start
  alone : tokenize t.text =
    .ok [⟨t.toLexeme, ⟨0, t.text.utf8ByteSize⟩⟩, Token.endAt t.text.utf8ByteSize]

/-- A longest match at the place of a token makes it a token of the source. -/
theorem tokenOf_of_munched {source : String} {before rest : List Char} {t : Token}
    (split : source.toList = before ++ (t.text.toList ++ rest))
    (span : t.span = ⟨utf8Length before, utf8Length before + utf8Length t.text.toList⟩)
    (munched : Munched t.kind t.text.toList rest) : TokenOf source t where
  proper end' := not_spells_endOfInput _ (end' ▸ munched.spells)
  nonempty none := by
    have spells := munched.spells
    rw [none] at spells
    exact not_spells_nil t.kind spells
  within := span ▸ Span.within_of_append split
  slice := by
    rw [span, Span.slice_of_append split, String.ofList_toList]
  matched := munched.spells.matches
  preferred kind matched := by
    by_cases ident : kind = .ident
    · exact .inr ident
    · exact .inl (TokenKind.eq_of_spells (matched.spells ident) munched.spells)
  longest longer front matched := by
    rw [span, textFrom_of_append split] at front
    rw [← String.length_toList]
    exact munched.longest longer front matched
  noComment := by
    rw [span, textFrom_of_append split]
    exact munched.noComment
  alone := tokenize_alone munched.spells

/-- The tokens of a source end in its end marker, and all others are tokens of the source. -/
theorem tokenOf_of_mem {source : String} {tokens : List Token} (lexed : tokenize source = .ok tokens) :
    ∃ front, tokens = front ++ [Token.endAt source.utf8ByteSize] ∧ ∀ t ∈ front, TokenOf source t := by
  have placed := placed_of_placePieces lexed
  obtain ⟨front, rfl, -⟩ := tokenize_append_line lexed
  refine ⟨front, rfl, fun t mem => ?_⟩
  obtain ⟨earlier, later, rfl⟩ := List.append_of_mem mem
  rw [List.append_assoc, List.cons_append] at placed
  obtain ⟨before, gap, rest, whole, -, span, -, munched⟩ := placed.split
  rw [← List.append_assoc] at whole
  rw [Nat.zero_add] at span
  exact tokenOf_of_munched whole span (munched (by simp))

/-- Lossless splitting. The tokens of a source end in the one end marker, empty, at the end of
the source; all others are tokens of the source, their spans in increasing order and apart;
and what stands before each token and behind the one in front of it is a gap, made of blanks
and of comments that go on to a line feed or to the end. -/
theorem tokenize_lossless (source : String) (tokens : List Token)
    (lexed : tokenize source = .ok tokens) :
    (∃ front, tokens = front ++ [Token.endAt source.utf8ByteSize] ∧ ∀ t ∈ front, TokenOf source t) ∧
    tokens.Pairwise (fun t t' => t.span.stop ≤ t'.span.start) ∧
    ∀ earlier t later, tokens = earlier ++ t :: later →
      (Span.mk (stopBehind 0 earlier) t.span.start).Within source ∧
      IsGap ((Span.mk (stopBehind 0 earlier) t.span.start).slice source).toList
        (textFrom source t.span.start) := by
  have placed := placed_of_placePieces lexed
  refine ⟨tokenOf_of_mem lexed, placed.ordered.2, ?_⟩
  rintro earlier t later rfl
  obtain ⟨before, gap, rest, whole, stop, span, isGap, -⟩ := placed.split
  have behind : source.toList = before ++ gap ++ (t.text.toList ++ rest) := by
    rw [whole, List.append_assoc]
  have start : t.span.start = utf8Length (before ++ gap) := by
    rw [span]
    exact Nat.zero_add _
  rw [stop, start, Nat.zero_add, textFrom_of_append behind, utf8Length_append,
    Span.slice_of_append whole, String.toList_ofList]
  exact ⟨Span.within_of_append whole, isGap⟩

/-- The tokens of `if*=1.5//é`. -/
def keywordBeforeStar : List Token :=
  [⟨⟨.kwIf, "if"⟩, ⟨0, 2⟩⟩, ⟨⟨.starAssign, "*="⟩, ⟨2, 4⟩⟩, ⟨⟨.floatLit, "1.5"⟩, ⟨4, 7⟩⟩,
    Token.endAt 11]

set_option maxRecDepth 100000 in
/-- A keyword, an operator, a number and a comment with nothing between them: the keyword is
no identifier, and the number, which the comment ends, does not stop at its point. -/
theorem tokenize_lossless_dense :
    tokenize "if*=1.5//é" = .ok keywordBeforeStar ∧
      (∀ t ∈ keywordBeforeStar, t.kind ≠ .endOfInput → TokenOf "if*=1.5//é" t) ∧
      IsGap ((Span.mk 7 11).slice "if*=1.5//é").toList (textFrom "if*=1.5//é" 11) := by
  have lexed : tokenize "if*=1.5//é" = .ok keywordBeforeStar := by cbv
  obtain ⟨⟨front, split, tokens⟩, -, gaps⟩ := tokenize_lossless _ _ lexed
  refine ⟨lexed, ?_, (gaps [_, _, _] (Token.endAt 11) [] rfl).2⟩
  intro t mem proper
  rw [split, List.mem_append] at mem
  rcases mem with mem | mem
  · exact tokens t mem
  · obtain rfl := List.mem_singleton.1 mem
    exact absurd rfl proper

end ProcLang
