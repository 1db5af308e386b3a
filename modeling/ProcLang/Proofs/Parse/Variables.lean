import ProcLang.Proofs.Parse.Expressions

/-!
# Declared names and variables are read exactly

A declared name may have a pointer mark, which the parser finds by looking two tokens
ahead. Parameters, initial values and lists of variables are built on it.
-/

set_option autoImplicit false

namespace ProcLang

open ProcLang.Parser TokenReader

/-- A declared name as a form. -/
def Declarator.form : Form Declarator where
  lexemes := Declarator.lexemes
  WellFormed := Declarator.WellFormed
  levels _ := 0
  MayPrecede _ _ := True

/-- A parameter as a form. -/
def Param.form : Form Param where
  lexemes := Param.lexemes
  WellFormed := Param.WellFormed
  levels _ := 0
  MayPrecede _ _ := True

/-- A name with its initial value as a form. Behind a name alone there is no `=`, which
would begin an initial value. -/
def Binding.form : Form Binding where
  lexemes := Binding.lexemes
  WellFormed := Binding.WellFormed
  levels := Binding.levels
  MayPrecede b kind := if b.initial.isSome then kind.EndsOperand 0 else kind ≠ .assign

/-- A list of variables as a form. -/
def VarDecl.form : Form VarDecl where
  lexemes := VarDecl.lexemes
  WellFormed := VarDecl.WellFormed
  levels := VarDecl.levels
  MayPrecede _ _ := True

variable {n : Nat} {ts rest : List Token}

theorem declarator_begun : Declarator.form.Begun ts ts :=
  ⟨.plain "x", Expr.spells_x, .start⟩

/-- A declared name is read exactly. -/
theorem declarator_parses : (Declarator.parse : Parser Declarator).Parses Declarator.form n where
  sound ts lex := by
    unfold Declarator.parse
    rw [leads_bind, leads_lookingAt]
    split
    · refine leads_skip_mark (l := ⟨.star, "*"⟩) (by decide) lex (fun m mark lexm => ?_)
        declarator_begun
      refine leads_expect_text (by decide) lexm (fun name r read spells _ => ?_) ?_
      · exact ⟨mark.cons read, spells, Nat.zero_le n, trivial⟩
      · exact Form.begun_of_reads (a := .pointer "x") Expr.spells_x mark ⟨_, rfl⟩
    · refine leads_expect_text (by decide) lex (fun name r read spells _ => ?_) declarator_begun
      exact ⟨read, spells, Nat.zero_le n, trivial⟩
  complete d ts rest read := by
    have reads := read.reads
    cases d with
    | plain name =>
        have different : (TokenReader.lookingAt [.star, .ident] : Parser Bool).Yields ts false ts := by
          obtain ⟨t, rfl, ht⟩ := reads_singleton.1 reads
          have hkind : t.kind = .ident := congrArg Lexeme.kind ht
          refine ⟨congrArg some ?_, rfl⟩
          simp [hkind]
        exact different.bind ((yields_expect reads).bind yields_pure)
    | pointer name =>
        obtain ⟨m, mark, behind⟩ := reads_cons.1 reads
        have pattern : (TokenReader.lookingAt [.star, .ident] : Parser Bool).Yields ts true ts := by
          obtain ⟨t, rfl, ht⟩ := reads_singleton.1 mark
          obtain ⟨t', rfl, ht'⟩ := reads_singleton.1 behind
          have hkind : t.kind = .star := congrArg Lexeme.kind ht
          have hkind' : t'.kind = .ident := congrArg Lexeme.kind ht'
          refine ⟨congrArg some ?_, rfl⟩
          simp [hkind, hkind']
        exact pattern.bind ((yields_skip mark).bind ((yields_expect behind).bind yields_pure))

theorem spells_int : TokenKind.SpellsText .typeName "int" := by
  rw [spellsText_of_isListed rfl]
  decide

/-- A parameter is read exactly. -/
theorem param_parses : (Param.parse : Parser Param).Parses Param.form n where
  sound ts lex := by
    have whole (typeName : String) (d : Declarator) (twf : TokenKind.SpellsText .typeName typeName)
        (dwf : d.WellFormed) : Param.WellFormed ⟨typeName, ⟨d, none⟩⟩ := ⟨twf, dwf, rfl⟩
    refine leads_expect_text (by decide) lex (fun typeName m tread tspells lexm => ?_) ?_
    · refine declarator_parses.leads_bind (n := n) lexm (fun d r read _ => ?_)
        (fun d r wf begins => ?_)
      · exact ⟨tread.append read.reads, whole typeName d tspells read.wellFormed, Nat.zero_le n,
          trivial⟩
      · exact Form.begun_of_prefix (whole typeName d tspells wf) tread begins List.prefix_rfl
    · exact ⟨_, whole "int" (.plain "x") spells_int Expr.spells_x, .start⟩
  complete p ts rest read := by
    obtain ⟨typeName, ⟨d, initial⟩⟩ := p
    obtain ⟨reads, ⟨-, dwf, hnone⟩, -, -⟩ := read
    obtain rfl : initial = none := hnone
    obtain ⟨m, tread, reads⟩ := reads_cons.1 reads
    apply (yields_expect tread).bind
    exact (declarator_parses.complete d m rest ⟨reads, dwf, Nat.zero_le n, trivial⟩).bind yields_pure

theorem bindings_follow (b : Binding) :
    Binding.form.MayPrecede b .comma ∧ Binding.form.MayPrecede b .semicolon := by
  unfold Binding.form
  simp only
  split
  · exact ⟨TokenKind.endsOperand_of_none rfl rfl 0, TokenKind.endsOperand_of_none rfl rfl 0⟩
  · decide

namespace Nested

variable {inner : Nested Parser}
  (operand : ∀ least, (inner.operand least).Parses (Expr.operandForm least) n)

include operand

/-- A name with an initial value is read exactly. -/
theorem initBinding_parses : inner.initBinding.Parses Binding.form n where
  sound ts lex := by
    refine declarator_parses.leads_bind (n := n) lex (fun d m read lexm => ?_) (fun d r wf begins => ?_)
    · refine leads_eat_mark (l := ⟨.assign, "="⟩) (by decide) lexm (fun m' mark lexm' => ?_)
        (fun hne => ?_)
      · have front := read.reads.append mark
        have whole (e : Expr) (wf : e.WellFormed) : Binding.WellFormed ⟨d, some e⟩ :=
          ⟨read.wellFormed, fun e' he' => by obtain rfl := Option.some.inj he'; exact wf⟩
        refine (operand 0).leads_bind lexm' (fun e r eread _ => ?_) (fun e r ewf begins => ?_)
        · refine ⟨?_, whole e eread.wellFormed.1, eread.levels_le, eread.mayPrecede⟩
          show Reads (d.lexemes ++ ⟨.assign, "="⟩ :: e.lexemes) ts r
          rw [← List.singleton_append, ← List.append_assoc]
          exact front.append eread.reads
        · exact Form.begun_of_prefix (whole e ewf.1) front begins
            (by simp [Declarator.form, Binding.form, Binding.lexemes, Expr.operandForm])
      · exact ⟨read.reads, ⟨read.wellFormed, fun e he => by simp at he⟩, Nat.zero_le n, hne⟩
    · exact ⟨⟨d, none⟩, ⟨wf, fun e he => by simp at he⟩, begins⟩
  complete b ts rest read := by
    obtain ⟨d, initial⟩ := b
    obtain ⟨reads, ⟨dwf, ewf⟩, hlevels, behind⟩ := read
    cases initial with
    | none =>
        refine (declarator_parses.complete d ts rest ⟨reads, dwf, Nat.zero_le n, trivial⟩).bind ?_
        exact (yields_eat_false behind).bind yields_pure
    | some e =>
        obtain ⟨m, dread, reads⟩ := reads_append.1 reads
        obtain ⟨m', mark, reads⟩ := reads_cons.1 reads
        refine (declarator_parses.complete d ts m ⟨dread, dwf, Nat.zero_le n, trivial⟩).bind ?_
        apply (yields_eat_true mark).bind
        exact ((operand 0).complete e m' rest
          ⟨reads, ⟨ewf e rfl, fun s _ => Nat.zero_le s⟩, hlevels, behind⟩).bind yields_pure

/-- The variables of one type are read exactly. -/
theorem varDecl_parses : inner.varDecl.Parses VarDecl.form n where
  sound ts lex := by
    have list := commaList_parses ⟨.semicolon, ";"⟩ (initBinding_parses operand)
      (by decide) (by decide) bindings_follow
    refine leads_expect_text (by decide) lex (fun typeName m tread tspells lexm => ?_) ?_
    · refine list.leads_bind lexm (fun bs r read _ => ?_) (fun bs r wf begins => ?_)
      · exact ⟨tread.cons read.reads, ⟨tspells, read.wellFormed⟩, read.levels_le, trivial⟩
      · exact Form.begun_of_prefix (a := ⟨typeName, bs⟩) ⟨tspells, wf⟩ tread begins
          List.prefix_rfl
    · have wf : Binding.WellFormed ⟨.plain "x", none⟩ := ⟨Expr.spells_x, fun e he => by simp at he⟩
      exact ⟨⟨"int", [⟨.plain "x", none⟩]⟩, ⟨spells_int, by simp, by simpa using wf⟩, .start⟩
  complete d ts rest read := by
    have list := commaList_parses ⟨.semicolon, ";"⟩ (initBinding_parses operand)
      (by decide) (by decide) bindings_follow
    obtain ⟨reads, ⟨-, wf⟩, hlevels, -⟩ := read
    obtain ⟨m, tread, reads⟩ := reads_cons.1 reads
    apply (yields_expect tread).bind
    exact (list.complete d.bindings m rest ⟨reads, wf, hlevels, trivial⟩).bind yields_pure

end Nested

end ProcLang
