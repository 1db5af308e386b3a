import Mathlib
import ProcLang.Proofs.Lexical.Concatenation
import ProcLang.Proofs.Parse.Naturality
import ProcLang.Proofs.Tree.Spacing

/-!
# Lexemes set apart by separators

A separator begins with a blank, which joins no lexeme, so lexemes with separators between them
are found again one by one, each where it was put (`placePieces_spread`). What a separator holds
behind its first blank, and the literals between which it stands, do not matter: a comment ends
with its own line feed, and a literal is read to its own quote. Two texts that set out the same
lexemes have the same tree or are refused at the same token (`tokenize_spread`).
-/

set_option autoImplicit false

namespace ProcLang

/-- Lexemes set out in a text: what stands before the first of them, and each of them with what
stands behind it. -/
structure Spread where
  before : List Char
  items : List (Lexeme × List Char)

namespace Spread

/-- The text of lexemes, each with what stands behind it. -/
def chars (items : List (Lexeme × List Char)) : List Char :=
  items.flatMap fun item => item.1.text.toList ++ item.2

/-- The tokens of lexemes that are set out from byte `offset` on, and the end marker. -/
def place (offset : Nat) : List (Lexeme × List Char) → List Token
  | [] => [Token.endAt offset]
  | (l, behind) :: items =>
      let stop := offset + l.text.utf8ByteSize
      ⟨l, ⟨offset, stop⟩⟩ :: place (stop + utf8Length behind) items

variable (s : Spread)

/-- The text as a whole. -/
def text : String :=
  String.ofList (s.before ++ chars s.items)

/-- The lexemes in their order. -/
def lexemes : List Lexeme :=
  s.items.map Prod.fst

/-- The lexemes as tokens where they were put, and the end marker behind all. -/
def tokens : List Token :=
  place (utf8Length s.before) s.items

theorem place_toLexeme (offset : Nat) (items : List (Lexeme × List Char)) :
    (place offset items).map Token.toLexeme = items.map Prod.fst ++ [⟨.endOfInput, ""⟩] := by
  induction items generalizing offset with
  | nil => rfl
  | cons item items ih => exact congrArg (item.1 :: ·) (ih _)

/-- A separator stands between each two lexemes, and one or nothing before the first of them and
behind the last. -/
structure Separated : Prop where
  before : s.before = [] ∨ IsSeparator s.before
  between : ∀ item ∈ s.items.dropLast, IsSeparator item.2
  behind : ∀ item ∈ s.items.getLast?, item.2 = [] ∨ IsSeparator item.2

end Spread

/-! ## Separators -/

/-- A comment is one piece up to its line feed. -/
theorem pieces_comment {body : List Char} (inside : '\n' ∉ body) (rest : List Char) :
    pieces ('/' :: '/' :: (body ++ '\n' :: rest)) =
      .spacing ('/' :: '/' :: body) :: pieces ('\n' :: rest) := by
  have plain : ∀ c ∈ '/' :: '/' :: body, decide (c ≠ '\n') = true := by
    intro c mem
    rw [decide_eq_true_eq]
    rintro rfl
    simp [inside] at mem
  have stops : ∀ c ∈ ('\n' :: rest).head?, decide (c ≠ '\n') = false := by
    simp
  have first : firstPiece '/' ('/' :: body ++ '\n' :: rest) = .spacing ('/' :: '/' :: body) := by
    have slashes : "//".toList <+: '/' :: '/' :: body ++ '\n' :: rest := List.prefix_append _ _
    exact (firstPiece_comment slashes).trans (congrArg Piece.spacing (takeWhile_run plain stops).1)
  have split := pieces_cons (congrArg Piece.text first)
  rwa [first] at split

/-- Blanks and comments only move on what stands behind them. -/
theorem placePieces_filling {gap : List Char} (filling : IsFilling gap) (offset : Nat)
    (rest : List Char) :
    placePieces offset (pieces (gap ++ rest)) =
      placePieces (offset + utf8Length gap) (pieces rest) := by
  induction filling generalizing offset with
  | nothing => rfl
  | blank c gap blank _ ih =>
      rw [List.cons_append, placePieces_blank blank, ih, utf8Length_cons, Nat.add_assoc]
  | comment body gap inside _ ih =>
      -- the line feed that ends the comment is a blank behind it
      have split := pieces_comment inside (gap ++ rest)
      have lineFeed : isBlank '\n' = true := by decide
      have length : utf8Length ('/' :: '/' :: (body ++ '\n' :: gap)) =
          utf8Length ('/' :: '/' :: body) + ('\n'.utf8Size + utf8Length gap) := by
        rw [← utf8Length_cons, ← utf8Length_append]
        rfl
      rw [List.cons_append, List.cons_append, List.append_assoc, List.cons_append, split, placePieces,
        placePieces_blank lineFeed, ih, length, Piece.text, Nat.add_assoc, Nat.add_assoc]

/-- A separator, or nothing. -/
theorem isFilling_of_separator {gap : List Char} (h : gap = [] ∨ IsSeparator gap) :
    IsFilling gap := by
  rcases h with rfl | separator
  · exact .nothing
  · cases gap with
    | nil => exact separator.elim
    | cons c cs => exact .blank c cs separator.1 separator.2

/-- What begins with a separator joins no lexeme before it. -/
theorem apart_of_separator {gap : List Char} (separator : IsSeparator gap) (cs rest : List Char) :
    Apart cs (gap ++ rest) := by
  cases gap with
  | nil => exact separator.elim
  | cons c gap =>
      intro d first
      obtain rfl := Option.some.inj first
      exact joins_blank separator.1 cs

/-! ## Lexemes -/

/-- A text that alone is one token spells its kind. -/
theorem spells_of_alone {l : Lexeme} {span : Span} {finish : Token}
    (alone : tokenize l.text = .ok [⟨l, span⟩, finish]) : l.kind.SpellsText l.text := by
  obtain ⟨front, n, split, lex, -⟩ := tokenize_eq_ok alone
  have split : [(⟨l, span⟩ : Token)] ++ [finish] = front ++ [Token.endAt n] := split
  obtain ⟨rfl, -⟩ := List.append_inj' split rfl
  exact lex _ (List.mem_singleton_self _)

/-- A lexeme that stands apart from what follows is a token, and what follows is placed behind
it. -/
theorem placePieces_lexeme {l : Lexeme} (spells : l.kind.SpellsText l.text) {rest : List Char}
    (apart : Apart l.text.toList rest) (offset : Nat) :
    placePieces offset (pieces (l.text.toList ++ rest)) =
      (placePieces (offset + l.text.utf8ByteSize) (pieces rest)).map
        (List.cons ⟨l, ⟨offset, offset + l.text.utf8ByteSize⟩⟩) := by
  rw [pieces_lexeme spells apart, placePieces, Piece.text, utf8Length_toList, String.ofList_toList]

theorem placePieces_nothing (offset : Nat) :
    placePieces offset (pieces (Spread.chars [])) = .ok (Spread.place offset []) := by
  rw [Spread.chars, List.flatMap_nil, pieces]
  rfl

/-- Lexemes with separators between them are found where they were put. -/
theorem placePieces_spread {items : List (Lexeme × List Char)}
    (spells : ∀ item ∈ items, item.1.kind.SpellsText item.1.text)
    (between : ∀ item ∈ items.dropLast, IsSeparator item.2)
    (behind : ∀ item ∈ items.getLast?, item.2 = [] ∨ IsSeparator item.2) (offset : Nat) :
    placePieces offset (pieces (Spread.chars items)) = .ok (Spread.place offset items) := by
  induction items generalizing offset with
  | nil => exact placePieces_nothing offset
  | cons item items ih =>
      obtain ⟨l, gap⟩ := item
      obtain ⟨first, spells⟩ := List.forall_mem_cons.1 spells
      have chars : Spread.chars ((l, gap) :: items) = l.text.toList ++ (gap ++ Spread.chars items) :=
        List.append_assoc _ _ _
      suffices h : IsFilling gap ∧ Apart l.text.toList (gap ++ Spread.chars items) ∧
          ∀ n, placePieces n (pieces (Spread.chars items)) = .ok (Spread.place n items) by
        obtain ⟨filling, apart, others⟩ := h
        rw [chars, placePieces_lexeme first apart, placePieces_filling filling, others]
        rfl
      -- behind the last lexeme there may be nothing, behind all others there is a separator
      cases items with
      | nil =>
          have last := behind (l, gap) rfl
          refine ⟨isFilling_of_separator last, ?_, placePieces_nothing⟩
          rcases last with rfl | separator
          · exact apart_nil _
          · exact apart_of_separator separator _ _
      | cons item' items =>
          obtain ⟨separator, between⟩ := List.forall_mem_cons.1 between
          exact ⟨isFilling_of_separator (.inr separator), apart_of_separator separator _ _,
            ih spells between behind⟩

/-- Spacing is undone. Lexemes each of which is one token alone, set out with separators between
them, are split into just these tokens, each where it was put. And whatever source has the same
lexemes, its own spacing does not matter: the two have the same tree, or are refused at the same
token. -/
theorem tokenize_spread (s : Spread) (separated : s.Separated) :
    ((∀ l ∈ s.lexemes, ∃ span finish, tokenize l.text = .ok [⟨l, span⟩, finish]) →
      tokenize s.text = .ok s.tokens) ∧
    ∀ source tokens, tokenize source = .ok tokens →
      tokens.map Token.toLexeme = s.lexemes ++ [⟨.endOfInput, ""⟩] →
      tokenize s.text = .ok s.tokens ∧
      ((∃ u, parseSource source = .ok u ∧ parseSource s.text = .ok u) ∨
        ∃ (i : Nat) (t t' : Token), tokens[i]? = some t ∧ s.tokens[i]? = some t' ∧
          parseSource source = .error ⟨t.text, t.span⟩ ∧
          parseSource s.text = .error ⟨t'.text, t'.span⟩) := by
  have undone (spells : ∀ l ∈ s.lexemes, l.kind.SpellsText l.text) :
      tokenize s.text = .ok s.tokens := by
    rw [tokenize, Spread.text, String.toList_ofList,
      placePieces_filling (isFilling_of_separator separated.before), Nat.zero_add]
    exact placePieces_spread (fun item mem => spells _ (List.mem_map_of_mem mem)) separated.between
      separated.behind _
  refine ⟨fun alone => undone fun l mem => ?_, fun source tokens lexed lexemes => ?_⟩
  · obtain ⟨span, finish, alone⟩ := alone l mem
    exact spells_of_alone alone
  · obtain ⟨front, n, rfl, lex, -⟩ := tokenize_eq_ok lexed
    rw [List.map_append] at lexemes
    have same : front.map Token.toLexeme = s.lexemes := (List.append_inj' lexemes rfl).1
    have lexed' : tokenize s.text = .ok s.tokens := by
      refine undone fun l mem => ?_
      rw [← same] at mem
      obtain ⟨t, member, rfl⟩ := List.mem_map.1 mem
      exact lex t member
    refine ⟨lexed', parseSource_same_lexemes lexed lexed' ?_⟩
    rw [List.map_append, same]
    exact (Spread.place_toLexeme _ s.items).symm

/-- A division by one of a string that holds the slashes of a comment, with comments around. -/
def commented : Spread where
  before := ['\n', '/', '/', '"', '\n']
  items :=
    [(⟨.typeName, "int"⟩, [' ']),
      (⟨.ident, "s"⟩, ['\t']),
      (⟨.assign, "="⟩, ['\r', '\n']),
      (⟨.stringLit, "\"é//\""⟩, [' ', '/', '/', '\n', '/', '/', ';', '\n']),
      (⟨.slash, "/"⟩, [' ', '/', '/', '\n']),
      (⟨.intLit, "1"⟩, ['\x0c']),
      (⟨.semicolon, ";"⟩, [])]

set_option maxRecDepth 100000 in
/-- The slash is no comment with the comment behind it, and the string goes on over its own
slashes; without any spacing the program is the same. -/
theorem tokenize_spread_commented :
    commented.text = "\n//\"\nint s\t=\r\n\"é//\" //\n//;\n/ //\n1\x0c;" ∧
      tokenize commented.text = .ok commented.tokens ∧
      ∃ u, parseSource "int s=\"é//\"/1;" = .ok u ∧ parseSource commented.text = .ok u := by
  have blank (c : Char) (h : isBlank c = true) : IsSeparator [c] := ⟨h, .nothing⟩
  have slashes (cs : List Char) (h : IsFilling cs) :
      IsSeparator (' ' :: '/' :: '/' :: '\n' :: cs) :=
    ⟨rfl, .comment [] cs List.not_mem_nil h⟩
  have separated : commented.Separated := by
    refine ⟨.inr ⟨rfl, .comment ['"'] [] (by decide) .nothing⟩, ?_, ?_⟩
    · simp only [commented, List.dropLast, List.forall_mem_cons]
      exact ⟨blank _ rfl, blank _ rfl, ⟨rfl, .blank _ _ rfl .nothing⟩,
        slashes _ (.comment [';'] [] (by decide) .nothing), slashes _ .nothing, blank _ rfl,
        List.forall_mem_nil _⟩
    · exact fun item last => .inl (congrArg Prod.snd (Option.some.inj last).symm)
  obtain ⟨undone, same⟩ := tokenize_spread commented separated
  have alone : ∀ l ∈ commented.lexemes,
      ∃ span finish, tokenize l.text = .ok [⟨l, span⟩, finish] := by
    simp only [commented, Spread.lexemes, List.map, List.forall_mem_cons]
    exact ⟨⟨_, _, by cbv⟩, ⟨_, _, by cbv⟩, ⟨_, _, by cbv⟩, ⟨_, _, by cbv⟩, ⟨_, _, by cbv⟩,
      ⟨_, _, by cbv⟩, ⟨_, _, by cbv⟩, List.forall_mem_nil _⟩
  obtain ⟨tokens, lexed, lexemes⟩ : ∃ tokens, tokenize "int s=\"é//\"/1;" = .ok tokens ∧
      tokens.map Token.toLexeme = commented.lexemes ++ [⟨.endOfInput, ""⟩] :=
    ⟨_, by cbv, by cbv⟩
  have accepted : ∃ u, parseSource "int s=\"é//\"/1;" = .ok u := ⟨_, by cbv⟩
  refine ⟨by cbv, undone alone, ?_⟩
  rcases (same _ tokens lexed lexemes).2 with read | ⟨_, t, _, -, -, refused, -⟩
  · exact read
  · obtain ⟨u, accepted⟩ := accepted
    cases accepted.symm.trans refused

end ProcLang
