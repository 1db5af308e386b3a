import Mathlib
import ProcLang.Proofs.Parse.Acceptance

/-!
# Printed programs read back

A program that was read from a source is printed to a text with the same lexemes, so the
text is read as the same program again (`print_reads_back`).
-/

set_option autoImplicit false

namespace ProcLang

/-- Round trip. If `source` is read as the program `u`, the printed text of `u` splits into
the lexemes of `source`, none lost, merged or reordered; it is read as `u`, and what is
read from it prints to the same text again. -/
theorem print_reads_back (source : String) (u : Program) (accepted : parseSource source = .ok u) :
    (∃ tokens tokens', tokenize source = .ok tokens ∧ tokenize u.print = .ok tokens' ∧
      tokens'.map Token.toLexeme = tokens.map Token.toLexeme) ∧
    parseSource u.print = .ok u ∧ (parseSource u.print).map Program.print = .ok u.print := by
  obtain ⟨wf, levels, hsource⟩ := (parseSource_eq_ok source u).1 accepted
  have hprint := Program.scan_print wf.printable
  have again := (parseSource_eq_ok u.print u).2 ⟨wf, levels, hprint⟩
  refine ⟨?_, again, by rw [again]; rfl⟩
  obtain ⟨front, n, htokens, -, lexemes⟩ := tokenize_of_scan hsource
  obtain ⟨front', n', htokens', -, lexemes'⟩ := tokenize_of_scan hprint
  refine ⟨_, _, htokens, htokens', ?_⟩
  rw [List.map_append, List.map_append, lexemes, lexemes']
  rfl

set_option maxRecDepth 100000 in
/-- A source with a comment and no spare blanks: the printed text keeps the two prefix
operators apart. -/
theorem print_reads_back_dense :
    ∃ u : Program, parseSource "int f(int*p)\x7bif(p)return- -x++*y;\x7d//" = .ok u ∧
      u.print = "int f(int *p) \x7b\n    if (p) return - -x++ * y;\n\x7d\n" ∧
      parseSource u.print = .ok u := by
  have accepted : parseSource "int f(int*p)\x7bif(p)return- -x++*y;\x7d//" =
      .ok ⟨[.func ⟨"int", .plain "f", [⟨"int", ⟨.pointer "p", none⟩⟩],
        some [.conditional (.ident "p") (.returnValue (.binary "*"
          (.prefixOp "-" (.prefixOp "-" (.postIncrement (.ident "x")))) (.ident "y")))
          .nothing]⟩]⟩ := by
    cbv
  exact ⟨_, accepted, by cbv, (print_reads_back _ _ accepted).2.1⟩

/-! ## Trees that no source has -/

/-- Printed tokens neither glue nor split. Every tree whose texts are lexemes of their kinds,
and in which an operand that begins with a prefix operator is itself one if a prefix operator
stands before it, prints to a text with its tokens in order, and the end behind them. -/
theorem tokenize_print (u : Program) (printable : u.Printable) :
    ∃ tokens, tokenize u.print = .ok tokens ∧
      tokens.map Token.toLexeme = u.lexemes ++ [⟨.endOfInput, ""⟩] := by
  obtain ⟨front, n, tokens, -, lexemes⟩ := tokenize_of_scan (Program.scan_print printable)
  refine ⟨_, tokens, ?_⟩
  rw [List.map_append, lexemes]
  rfl

/-- A parameter with an initial value outside of a function, a list of no variables, a loop
that is never read, and a body with operators and alternatives grouped as no source has them. -/
def unparsable : Program :=
  ⟨[.param ⟨"int", ⟨.pointer "p", some (.literal .int "1")⟩⟩, .var ⟨"int", []⟩,
    .func ⟨"int", .plain "f", [⟨"int", ⟨.plain "p", some (.ident "p")⟩⟩], some
      [.forLoop,
        .conditional (.ident "p") (.conditional (.ident "p") .breakOut .nothing)
          (.otherwise (.evaluate (.prefixOp "-" (.prefixOp "-" (.postDecrement
            (.binary "*" (.binary "+" (.ident "p") (.prefixOp "+" (.ident "p")))
              (.ident "p")))))))]⟩]⟩

set_option maxRecDepth 100000 in
/-- The printed text has its tokens, though it is no program: a prefix operator before another
and before a longer operand, a sum in front of its product, an `else` behind two conditionals. -/
theorem tokenize_print_unparsable :
    unparsable.Printable ∧
      unparsable.print = "int *p = 1\nint ;\nint f(int p = p) \x7b\n    for\n    if (p) if (p) break; else - -p + +p * p--;\n\x7d\n" ∧
      ∃ tokens, tokenize unparsable.print = .ok tokens ∧
        tokens.map Token.toLexeme = unparsable.lexemes ++ [⟨.endOfInput, ""⟩] := by
  have lexed : tokenize "int f p 1" = .ok ([⟨⟨.typeName, "int"⟩, ⟨0, 3⟩⟩, ⟨⟨.ident, "f"⟩, ⟨4, 5⟩⟩,
      ⟨⟨.ident, "p"⟩, ⟨6, 7⟩⟩, ⟨⟨.intLit, "1"⟩, ⟨8, 9⟩⟩] ++ [Token.endAt 9]) := by cbv
  obtain ⟨front, n, split, lex, -⟩ := tokenize_eq_ok lexed
  rw [← (List.append_inj' split rfl).1] at lex
  simp only [Lexical, List.forall_mem_cons] at lex
  obtain ⟨type, function, name, number, -⟩ := lex
  have printable : unparsable.Printable := by
    have minus : IsPrefixSpelling "-" := by cbv
    have plus : IsPrefixSpelling "+" := by cbv
    have sum : (binaryStrength? "+").isSome = true := by cbv
    have product : (binaryStrength? "*").isSome = true := by cbv
    simp [unparsable, Program.Printable, Decl.Printable, Param.Printable, VarDecl.Printable,
      FuncDecl.Printable, Binding.Printable, Declarator.WellFormed, Declarator.name, Stmt.Printable,
      Stmt.AllPrintable, Alternatives.Printable, Expr.Printable, Expr.isPrefixed,
      Expr.startsPrefixed, Expr.lexemes, LiteralKind.tokenKind, TokenKind.isPrefixOperator, *]
  exact ⟨printable, by cbv, tokenize_print _ printable⟩

set_option maxRecDepth 100000 in
/-- Where the first operator of an operand is not its outermost one, the blank is missing, and
two operators become one. -/
example :
    let u : Program :=
      ⟨[.var ⟨"int", [⟨.plain "x", some (.prefixOp "-" (.postIncrement (.prefixOp "-" (.ident "x"))))⟩]⟩]⟩
    u.print = "int x = --x++;\n" ∧ (tokenize u.print).map List.length = .ok u.lexemes.length := by
  cbv

end ProcLang
