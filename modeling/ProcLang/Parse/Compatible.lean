import ProcLang.Parse.Program

/-!
# Relations that the grammar keeps

Every parser of the language is put together from a few ways of reading by sequence,
choice and loop. A relation between the parsers of two readers that holds of these and
is kept by those (`Composable`) therefore holds between the two instances of every phrase
below a top-level declaration (`Composable.funcDecl` and what comes before it), and of the
declarations as well if it allows for their notes and lookahead (`Compatible.program`). A
property of the parsers of one reader is the case in which the second parser is left out of
account.
-/

set_option autoImplicit false

namespace ProcLang

open TokenReader

/-- A relation between the parsers of two readers that give values of the same type. -/
abbrev ReaderRelation (m m' : Type → Type) : Type 1 :=
  (α : Type) → m α → m' α → Prop

section Relations

variable {m m' : Type → Type} [TokenReader m] [TokenReader m']

/-- Relations between the parsers of two readers that all ways of putting parsers together
keep, and that hold of a declared name, which looks further ahead than the current token. -/
structure Composable (R : ReaderRelation m m') : Prop where
  pure {α : Type} (a : α) : R _ (pure a) (pure a)
  refuse {α : Type} : R _ (refuse : m α) refuse
  kindAhead : R _ kindAhead kindAhead
  bind {α β : Type} {p : m α} {p' : m' α} {f : α → m β} {f' : α → m' β} :
    R _ p p' → (∀ a, R _ (f a) (f' a)) → R _ (p >>= f) (p' >>= f')
  choose {α β : Type} {accepts : TokenKind → Option β} {taken : β → String → m α}
    {taken' : β → String → m' α} {otherwise : m α} {otherwise' : m' α} :
    accepts .endOfInput = none → (∀ b text, R _ (taken b text) (taken' b text)) →
      R _ otherwise otherwise' →
        R _ (choose accepts taken otherwise) (choose accepts taken' otherwise')
  loop {σ α : Type} {round : σ → m (Round σ α)} {round' : σ → m' (Round σ α)} :
    (∀ s, R _ (round s) (round' s)) → ∀ s, R _ (loop round s) (loop round' s)
  declarator : R _ Declarator.parse Declarator.parse

/-- Composable relations that hold of a top-level declaration, too. It is the other phrase
that looks further ahead, and the only one that is noted. -/
structure Compatible (R : ReaderRelation m m') : Prop extends Composable R where
  declaration {inner : Nested m} {inner' : Nested m'} :
    R _ inner.funcDecl inner'.funcDecl → R _ inner.varDecl inner'.varDecl →
      R _ inner.declaration inner'.declaration

/-- Relations that hold of every primitive way of reading, lookahead included. The end
marker stands in no pattern. -/
structure Primitive (R : ReaderRelation m m') : Prop where
  pure {α : Type} (a : α) : R _ (pure a) (pure a)
  refuse {α : Type} : R _ (refuse : m α) refuse
  kindAhead : R _ kindAhead kindAhead
  noteDeclaration : R _ noteDeclaration noteDeclaration
  lookingAt (pattern : List TokenKind) :
    .endOfInput ∉ pattern → R _ (lookingAt pattern) (lookingAt pattern)
  bind {α β : Type} {p : m α} {p' : m' α} {f : α → m β} {f' : α → m' β} :
    R _ p p' → (∀ a, R _ (f a) (f' a)) → R _ (p >>= f) (p' >>= f')
  choose {α β : Type} {accepts : TokenKind → Option β} {taken : β → String → m α}
    {taken' : β → String → m' α} {otherwise : m α} {otherwise' : m' α} :
    accepts .endOfInput = none → (∀ b text, R _ (taken b text) (taken' b text)) →
      R _ otherwise otherwise' →
        R _ (choose accepts taken otherwise) (choose accepts taken' otherwise')
  loop {σ α : Type} {round : σ → m (Round σ α)} {round' : σ → m' (Round σ α)} :
    (∀ s, R _ (round s) (round' s)) → ∀ s, R _ (loop round s) (loop round' s)

variable {R : ReaderRelation m m'}

omit [TokenReader m] [TokenReader m'] in
theorem ite_related {α : Type} {c : Prop} [Decidable c] {p q : m α} {p' q' : m' α}
    (yes : R _ p p') (no : R _ q q') : R _ (if c then p else q) (if c then p' else q') := by
  split
  · exact yes
  · exact no

namespace Primitive

variable (h : Primitive R)

include h

theorem expect {wanted : TokenKind} (proper : only wanted .endOfInput = none) :
    R _ (expect wanted : m String) (TokenReader.expect wanted) :=
  h.choose proper (fun _ text => h.pure text) h.refuse

theorem skip {wanted : TokenKind} (proper : only wanted .endOfInput = none) :
    R _ (skip wanted : m Unit) (TokenReader.skip wanted) :=
  h.choose proper (fun _ _ => h.pure ()) h.refuse

/-- A relation that holds of the primitive ways of reading holds of the two phrases
that look ahead. -/
theorem compatible : Compatible R where
  pure := h.pure
  refuse := h.refuse
  kindAhead := h.kindAhead
  bind := h.bind
  choose := h.choose
  loop := h.loop
  declarator :=
    h.bind (h.lookingAt _ (by decide)) fun _ =>
      ite_related
        (h.bind (h.skip rfl) fun _ => h.bind (h.expect rfl) fun _ => h.pure _)
        (h.bind (h.expect rfl) fun _ => h.pure _)
  declaration funcDecl varDecl :=
    h.bind h.noteDeclaration fun _ => h.bind (h.lookingAt _ (by decide)) fun _ =>
      h.bind (h.lookingAt _ (by decide)) fun _ =>
        ite_related (h.bind funcDecl fun _ => h.pure _)
          (h.bind (h.lookingAt _ (by decide)) fun _ =>
            h.bind (h.lookingAt _ (by decide)) fun _ =>
              ite_related (h.bind varDecl fun _ => h.pure _) h.refuse)

end Primitive

/-- The parsers of the nested phrases are related. -/
structure Nested.Related (R : ReaderRelation m m') (inner : Nested m)
    (inner' : Nested m') : Prop where
  operand : ∀ least, R _ (inner.operand least) (inner'.operand least)
  unary : R _ inner.unary inner'.unary
  stmt : R _ inner.stmt inner'.stmt

omit [TokenReader m] [TokenReader m'] in
theorem Nested.Related.expr {inner : Nested m} {inner' : Nested m'}
    (r : Nested.Related R inner inner') : R _ inner.expr inner'.expr :=
  r.operand 0

namespace Composable

variable (h : Composable R)

include h

/-! ## Reading common to many phrases -/

theorem expect {wanted : TokenKind} (proper : only wanted .endOfInput = none) :
    R _ (expect wanted : m String) (TokenReader.expect wanted) :=
  h.choose proper (fun _ text => h.pure text) h.refuse

theorem skip {wanted : TokenKind} (proper : only wanted .endOfInput = none) :
    R _ (skip wanted : m Unit) (TokenReader.skip wanted) :=
  h.choose proper (fun _ _ => h.pure ()) h.refuse

theorem eat {wanted : TokenKind} (proper : only wanted .endOfInput = none) :
    R _ (eat wanted : m Bool) (TokenReader.eat wanted) :=
  h.choose proper (fun _ _ => h.pure true) (h.pure false)

theorem listUntil {α : Type} {ended : m Bool} {ended' : m' Bool} {item : m α} {item' : m' α}
    (hended : R _ ended ended') (hitem : R _ item item') :
    R _ (listUntil ended item) (TokenReader.listUntil ended' item') :=
  h.loop (fun _ => h.bind hended fun _ =>
    ite_related (h.pure _) (h.bind hitem fun _ => h.pure _)) _

theorem commaList {α : Type} {closing : TokenKind} {item : m α} {item' : m' α}
    (hitem : R _ item item') (proper : only closing .endOfInput = none) :
    R _ (commaList closing item) (TokenReader.commaList closing item') :=
  h.loop (fun _ => h.bind hitem fun _ => h.bind (h.eat proper) fun _ =>
    ite_related (h.pure _) (h.bind (h.skip rfl) fun _ => h.pure _)) _

theorem parenList {α : Type} {item : m α} {item' : m' α} (hitem : R _ item item') :
    R _ (parenList item) (TokenReader.parenList item') :=
  h.bind (h.eat rfl) fun _ =>
    ite_related (h.pure _) (h.commaList hitem rfl)

theorem param : R _ Param.parse Param.parse :=
  h.bind (h.expect rfl) fun _ => h.bind h.declarator fun _ => h.pure _

/-! ## Phrases -/

variable {inner : Nested m} {inner' : Nested m'} (r : Nested.Related R inner inner')

include r

theorem primary : R _ inner.primary inner'.primary :=
  h.choose rfl (fun _ _ => h.pure _) <|
    h.choose rfl (fun _ _ => h.pure _) <|
      h.bind (h.skip rfl) fun _ => h.bind r.expr fun _ =>
        h.bind (h.skip rfl) fun _ => h.pure _

theorem postfixRound (base : Expr) : R _ (inner.postfixRound base) (inner'.postfixRound base) := by
  refine h.bind h.kindAhead fun kind => ?_
  split
  · exact h.bind (h.skip rfl) fun _ => h.pure _
  · exact h.bind (h.skip rfl) fun _ => h.pure _
  · exact h.bind (h.skip rfl) fun _ =>
      h.bind (h.parenList r.expr) fun _ => h.pure _
  · exact h.bind (h.skip rfl) fun _ => h.bind r.expr fun _ =>
      h.bind (h.skip rfl) fun _ => h.pure _
  · exact h.pure _

theorem unaryExpr : R _ inner.unaryExpr inner'.unaryExpr :=
  h.choose rfl (fun _ _ => h.bind r.unary fun _ => h.pure _)
    (h.bind (h.primary r) fun base => h.loop (h.postfixRound r) base)

theorem binaryRound (least : Nat) (lhs : Expr) :
    R _ (inner.binaryRound least lhs) (inner'.binaryRound least lhs) :=
  h.choose rfl (fun _ _ => h.bind (r.operand _) fun _ => h.pure _) (h.pure _)

theorem operatorExpr (least : Nat) : R _ (inner.operatorExpr least) (inner'.operatorExpr least) :=
  h.bind (h.unaryExpr r) fun first => h.loop (h.binaryRound r least) first

theorem initBinding : R _ inner.initBinding inner'.initBinding :=
  h.bind h.declarator fun _ => h.bind (h.eat rfl) fun _ =>
    ite_related (h.bind r.expr fun _ => h.pure _) (h.pure _)

theorem varDecl : R _ inner.varDecl inner'.varDecl :=
  h.bind (h.expect rfl) fun _ =>
    h.bind (h.commaList (h.initBinding r) rfl) fun _ => h.pure _

theorem blockBody : R _ inner.blockBody inner'.blockBody :=
  h.listUntil (h.eat rfl) r.stmt

theorem branch : R _ inner.branch inner'.branch :=
  h.bind (h.bind (h.skip rfl) fun _ => h.bind r.expr fun _ =>
      h.bind (h.skip rfl) fun _ => h.pure _) fun _ =>
    h.bind r.stmt fun _ => h.pure _

theorem alternatives : R _ inner.alternatives inner'.alternatives :=
  h.bind (h.listUntil (h.bind (h.eat rfl) fun _ => h.pure _) (h.branch r)) fun _ =>
    h.bind (h.bind (h.eat rfl) fun _ =>
        ite_related (h.bind r.stmt fun _ => h.pure _) (h.pure _)) fun _ => h.pure _

theorem statement : R _ inner.statement inner'.statement := by
  refine h.bind h.kindAhead fun kind => ?_
  split
  · exact h.bind (h.skip rfl) fun _ => h.bind (h.blockBody r) fun _ => h.pure _
  · exact h.bind (h.skip rfl) fun _ => h.bind (h.branch r) fun _ =>
      h.bind (h.alternatives r) fun _ => h.pure _
  · exact h.bind (h.skip rfl) fun _ => h.bind (h.branch r) fun _ => h.pure _
  · exact h.bind (h.skip rfl) fun _ => h.bind r.stmt fun _ => h.pure _
  · exact h.refuse
  · exact h.bind (h.skip rfl) fun _ => h.bind (h.skip rfl) fun _ => h.pure _
  · exact h.bind (h.skip rfl) fun _ => h.bind (h.skip rfl) fun _ => h.pure _
  · exact h.bind (h.skip rfl) fun _ => h.bind r.expr fun _ =>
      h.bind (h.skip rfl) fun _ => h.pure _
  · exact h.bind (h.varDecl r) fun _ => h.pure _
  · exact h.bind r.expr fun _ => h.bind (h.skip rfl) fun _ => h.pure _

theorem funcDecl : R _ inner.funcDecl inner'.funcDecl :=
  h.bind (h.expect rfl) fun _ => h.bind h.declarator fun _ =>
    h.bind (h.skip rfl) fun _ => h.bind (h.parenList h.param) fun _ =>
      h.bind (h.eat rfl) fun _ =>
        ite_related (h.bind (h.blockBody r) fun _ => h.pure _)
          (h.bind (h.skip rfl) fun _ => h.pure _)

end Composable

namespace Compatible

variable (h : Compatible R) {inner : Nested m} {inner' : Nested m'}
  (r : Nested.Related R inner inner')

include h r

theorem decl : R _ inner.declaration inner'.declaration :=
  h.declaration (h.funcDecl r) (h.varDecl r)

theorem program : R _ inner.program inner'.program :=
  h.bind (h.listUntil (h.bind h.kindAhead fun _ => h.pure _) (h.decl r)) fun _ => h.pure _

end Compatible

end Relations

/-- A property of the parsers over token lists that all ways of composing them keep
holds of the parsers of every nesting level. -/
theorem nestedParsers_related {R : ReaderRelation Parser Parser}
    (h : Composable R) (n : Nat) : Nested.Related R (nestedParsers n) (nestedParsers n) := by
  induction n with
  | zero => exact ⟨fun _ => h.refuse, h.refuse, h.refuse⟩
  | succ n ih => exact ⟨h.operatorExpr ih, h.unaryExpr ih, h.statement ih⟩

end ProcLang
