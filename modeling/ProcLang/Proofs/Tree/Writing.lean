import ProcLang.Tree.Writer

/-!
# Printing into a writer that may refuse

A printer offers the same texts to every writer, in the same order, and they make up the
layout of the tree; it goes on as long as the writer takes them and offers nothing behind the
first that is refused (`Prints`). Sequences of such printers are such printers, so that the
printers of all trees are. What a writer of bounded room holds in the end is therefore the
longest front of the whole text that has room in it.
-/

set_option autoImplicit false

namespace ProcLang

open Fragment (chars)

/-! ## Writers -/

namespace Writer

variable {σ : Type} {writer : Writer σ} {state mid last : σ} {texts more : List String}

/-- The writer, noting in order which texts it is offered. -/
def noted (writer : Writer σ) : Writer (σ × List String) := fun (state, log) text =>
  let (next, taken) := writer state text
  ((next, log ++ [text]), taken)

/-- From a state the writer takes all of the texts, one after another, and comes to another. -/
inductive Takes (writer : Writer σ) : σ → List String → σ → Prop
  | nil (state : σ) : Takes writer state [] state
  | cons {state next last : σ} {text : String} {texts : List String} :
      writer state text = (next, true) → Takes writer next texts last →
        Takes writer state (text :: texts) last

/-- From a state the writer takes some of the texts and refuses the next, whatever is behind. -/
inductive Refuses (writer : Writer σ) : σ → List String → σ → Prop
  | here {state last : σ} {text : String} (texts : List String) :
      writer state text = (last, false) → Refuses writer state (text :: texts) last
  | later {state next last : σ} {text : String} {texts : List String} :
      writer state text = (next, true) → Refuses writer next texts last →
        Refuses writer state (text :: texts) last

theorem takes_or_refuses (writer : Writer σ) (state : σ) (texts : List String) :
    (∃ last, writer.Takes state texts last) ∨ ∃ last, writer.Refuses state texts last := by
  induction texts generalizing state with
  | nil => exact .inl ⟨state, .nil state⟩
  | cons text texts ih =>
      obtain ⟨⟨next, taken⟩, offered⟩ : ∃ answer, writer state text = answer := ⟨_, rfl⟩
      cases taken with
      | false => exact .inr ⟨next, .here texts offered⟩
      | true =>
          rcases ih next with ⟨last, takes⟩ | ⟨last, refuses⟩
          · exact .inl ⟨last, .cons offered takes⟩
          · exact .inr ⟨last, .later offered refuses⟩

theorem Takes.of_append (h : writer.Takes state (texts ++ more) last) :
    ∃ mid, writer.Takes state texts mid ∧ writer.Takes mid more last := by
  induction texts generalizing state with
  | nil => exact ⟨state, .nil state, h⟩
  | cons text texts ih =>
      cases h with
      | cons offered others =>
          obtain ⟨mid, front, behind⟩ := ih others
          exact ⟨mid, .cons offered front, behind⟩

theorem Refuses.of_append (h : writer.Refuses state (texts ++ more) last) :
    writer.Refuses state texts last ∨
      ∃ mid, writer.Takes state texts mid ∧ writer.Refuses mid more last := by
  induction texts generalizing state with
  | nil => exact .inr ⟨state, .nil state, h⟩
  | cons text texts ih =>
      cases h with
      | here _ offered => exact .inl (.here texts offered)
      | later offered others =>
          rcases ih others with front | ⟨mid, front, behind⟩
          · exact .inl (.later offered front)
          · exact .inr ⟨mid, .cons offered front, behind⟩

/-- A refusal is that of one text, behind those that were taken. -/
theorem Refuses.split (h : writer.Refuses state texts last) :
    ∃ front text behind mid, texts = front ++ text :: behind ∧ writer.Takes state front mid ∧
      writer mid text = (last, false) := by
  induction h with
  | @here state last text texts offered => exact ⟨[], text, texts, state, rfl, .nil state, offered⟩
  | @later state next last text texts offered _ ih =>
      obtain ⟨front, refused, behind, mid, rfl, taken, refusal⟩ := ih
      exact ⟨text :: front, refused, behind, mid, rfl, .cons offered taken, refusal⟩

/-- A writer that notes what it is offered takes what the writer takes. -/
theorem Takes.noted (h : writer.Takes state texts last) (log : List String) :
    writer.noted.Takes (state, log) texts (last, log ++ texts) := by
  induction h generalizing log with
  | nil state =>
      rw [List.append_nil]
      exact .nil _
  | @cons state next last text texts offered _ ih =>
      have noted : writer.noted (state, log) text = ((next, log ++ [text]), true) := by
        rw [Writer.noted, offered]
      rw [List.append_cons]
      exact .cons noted (ih _)

/-- It notes the refused text and none behind it. -/
theorem Takes.noted_refuses {text : String} (h : writer.Takes state texts mid)
    (offered : writer mid text = (last, false)) (behind log : List String) :
    writer.noted.Refuses (state, log) (texts ++ text :: behind) (last, log ++ (texts ++ [text])) := by
  induction h generalizing log with
  | nil state =>
      apply Refuses.here
      rw [Writer.noted, offered]
      rfl
  | @cons state next last text' texts taken _ ih =>
      have noted : writer.noted (state, log) text' = ((next, log ++ [text']), true) := by
        rw [Writer.noted, taken]
      have others := ih offered (log ++ [text'])
      rw [List.append_assoc] at others
      exact .later noted others

end Writer

/-! ## Printers -/

namespace Printer

variable {σ α β : Type} {writer : Writer σ} {page next : Page σ}

theorem bind_some {p : Printer σ α} {f : α → Printer σ β} {a : α}
    (h : p writer page = (some a, next)) : (p >>= f) writer page = f a writer next := by
  show andThen p f writer page = _
  simp only [andThen, h]

theorem bind_none {p : Printer σ α} {f : α → Printer σ β}
    (h : p writer page = (none, next)) : (p >>= f) writer page = (none, next) := by
  show andThen p f writer page = _
  simp only [andThen, h]

/-- Where `before` blocks are open, the printer offers the texts in order, up to the first that
is refused. If none is, `after` blocks are open at the end. -/
structure Offers (p : Printer σ Unit) (writer : Writer σ) (before after : Nat)
    (texts : List String) : Prop where
  taken : ∀ {state last : σ}, writer.Takes state texts last →
    p writer ⟨state, before⟩ = (some (), ⟨last, after⟩)
  refused : ∀ {state last : σ}, writer.Refuses state texts last →
    ∃ depth, p writer ⟨state, before⟩ = (none, ⟨last, depth⟩)

end Printer

/-- To every writer the printer offers the same texts, which make up `cs`, up to the first that
is refused. It begins with `before` blocks open and, if it comes to its end, ends with
`after`. -/
def Prints (p : (σ : Type) → Printer σ Unit) (before after : Nat) (cs : List Char) : Prop :=
  ∃ texts : List String, texts.flatMap String.toList = cs ∧
    ∀ (σ : Type) (writer : Writer σ), (p σ).Offers writer before after texts

namespace Prints

variable {p q : (σ : Type) → Printer σ Unit} {d d' d'' : Nat} {cs cs' : List Char}

/-- A printer that offers nothing. -/
theorem silently (h : ∀ (σ : Type) (writer : Writer σ) (state : σ),
    p σ writer ⟨state, d⟩ = (some (), ⟨state, d'⟩)) : Prints p d d' [] := by
  refine ⟨[], rfl, fun σ writer => ⟨?_, ?_⟩⟩
  · rintro state last ⟨⟩
    exact h σ writer state
  · rintro state last ⟨⟩

theorem done (d : Nat) : Prints (fun _ => pure ()) d d [] :=
  silently fun _ _ _ => rfl

theorem offer (text : String) (d : Nat) : Prints (fun _ => Printer.offer text) d d text.toList := by
  refine ⟨[text], List.append_nil _, fun σ writer => ⟨?_, ?_⟩⟩
  · rintro state last (_ | ⟨offered, ⟨⟩⟩)
    simp only [Printer.offer, offered]
  · rintro state last (⟨_, offered⟩ | ⟨_, ⟨⟩⟩)
    exact ⟨d, by simp only [Printer.offer, offered]⟩

/-- One printer and then another. -/
theorem andThen (hp : Prints p d d' cs) (hq : Prints q d' d'' cs') :
    Prints (fun σ => p σ >>= fun _ => q σ) d d'' (cs ++ cs') := by
  obtain ⟨texts, rfl, hp⟩ := hp
  obtain ⟨more, rfl, hq⟩ := hq
  refine ⟨texts ++ more, List.flatMap_append, fun σ writer => ⟨?_, ?_⟩⟩
  · intro state last takes
    obtain ⟨mid, first, second⟩ := takes.of_append
    exact (Printer.bind_some ((hp σ writer).taken first)).trans ((hq σ writer).taken second)
  · intro state last refuses
    rcases refuses.of_append with first | ⟨mid, first, second⟩
    · obtain ⟨depth, run⟩ := (hp σ writer).refused first
      exact ⟨depth, Printer.bind_none run⟩
    · obtain ⟨depth, run⟩ := (hq σ writer).refused second
      exact ⟨depth, (Printer.bind_some ((hp σ writer).taken first)).trans run⟩

theorem of_chars (h : Prints p d d' cs) (same : cs = cs') : Prints p d d' cs' :=
  same ▸ h

/-- A printer does what another does where as many blocks are open. -/
theorem congr (hq : Prints q d d' cs) (same : ∀ (σ : Type) (writer : Writer σ) (state : σ),
    p σ writer ⟨state, d⟩ = q σ writer ⟨state, d⟩) : Prints p d d' cs := by
  obtain ⟨texts, rfl, hq⟩ := hq
  refine ⟨texts, rfl, fun σ writer => ⟨?_, ?_⟩⟩
  · intro state last takes
    rw [same]
    exact (hq σ writer).taken takes
  · intro state last refuses
    rw [same]
    exact (hq σ writer).refused refuses

theorem ite {c : Bool} (yes : c = true → Prints p d d' cs) (no : c = false → Prints q d d' cs) :
    Prints (fun σ => if c then p σ else q σ) d d' cs := by
  cases c with
  | true => exact yes rfl
  | false => exact no rfl

theorem repeatedly (text : String) (n d : Nat) :
    Prints (fun _ => Printer.repeatedly text n) d d (List.replicate n text.toList).flatten := by
  induction n with
  | zero => exact done d
  | succ n ih =>
      rw [List.replicate_succ, List.flatten_cons]
      exact (offer text d).andThen ih

/-- Every open block indents by four columns. -/
theorem indent (d : Nat) : Prints (fun _ => Printer.indent) d d (List.replicate (4 * d) ' ') := by
  have columns := repeatedly "    " d d
  have four : "    ".toList = List.replicate 4 ' ' := rfl
  rw [four, List.flatten_replicate_replicate, Nat.mul_comm] at columns
  exact columns.congr fun _ _ _ => rfl

theorem openBlock (d : Nat) : Prints (fun _ => Printer.openBlock) d (d + 1) [] :=
  silently fun _ _ _ => rfl

theorem closeBlock (d : Nat) : Prints (fun _ => Printer.closeBlock) (d + 1) d [] :=
  silently fun _ _ _ => rfl

section Lists

variable {α : Type} {write : α → (σ : Type) → Printer σ Unit} {layout : α → List Fragment}

/-- Every part behind the first has a comma before it. -/
theorem commaSeparated_behind {items : List α}
    (each : ∀ x ∈ items, Prints (write x) d d ((layout x).flatMap chars)) :
    Prints (fun σ => Printer.commaSeparated false (items.map (write · σ))) d d
      (items.flatMap fun x => ',' :: ' ' :: (layout x).flatMap chars) := by
  induction items with
  | nil => exact done d
  | cons x items ih =>
      rw [List.flatMap_cons]
      have others := ih fun y mem => each y (List.mem_cons_of_mem _ mem)
      have all := (offer ", " d).andThen ((each x List.mem_cons_self).andThen others)
      rw [← List.append_assoc] at all
      exact all

theorem flatMap_commaSeparated (first : List Fragment) (parts : List (List Fragment)) :
    (Fragment.commaSeparated (first :: parts)).flatMap chars =
      first.flatMap chars ++ parts.flatMap fun part => ',' :: ' ' :: part.flatMap chars := by
  induction parts generalizing first with
  | nil => simp [Fragment.commaSeparated, List.intercalate]
  | cons part parts ih =>
      have comma : Fragment.commaSeparated (first :: part :: parts) =
          first ++ .word "," :: .space :: Fragment.commaSeparated (part :: parts) := by
        simp [Fragment.commaSeparated, List.intercalate, List.intersperse]
      rw [comma, List.flatMap_append, List.flatMap_cons, List.flatMap_cons, ih, List.flatMap_cons]
      rfl

/-- The parts of a list are printed as they are laid out. -/
theorem commaSeparated {items : List α}
    (each : ∀ x ∈ items, Prints (write x) d d ((layout x).flatMap chars)) :
    Prints (fun σ => Printer.commaSeparated true (items.map (write · σ))) d d
      ((Fragment.commaSeparated (items.map layout)).flatMap chars) := by
  cases items with
  | nil => exact done d
  | cons x items =>
      rw [List.map_cons, flatMap_commaSeparated, List.flatMap_map]
      exact (each x List.mem_cons_self).andThen
        (commaSeparated_behind fun y mem => each y (List.mem_cons_of_mem _ mem))

end Lists

end Prints

/-! ## Expressions -/

namespace Expr

theorem writeEach_eq_map {σ : Type} (es : List Expr) :
    (writeEach es : List (Printer σ Unit)) = es.map write := by
  induction es with
  | nil => rfl
  | cons e es ih => rw [writeEach, ih, List.map_cons]

mutual

/-- An expression is printed as it is laid out. -/
theorem prints (d : Nat) : (e : Expr) → Prints (fun _ => e.write) d d (e.layout.flatMap chars)
  | literal kind text => (Prints.offer text d).of_chars (by simp [layout, chars])
  | ident name => (Prints.offer name d).of_chars (by simp [layout, chars])
  | paren inner => by
      have printed := (Prints.offer "(" d).andThen ((prints d inner).andThen (.offer ")" d))
      exact printed.of_chars (by simp [layout, chars])
  | binary op lhs rhs => by
      have behind := (Prints.offer " " d).andThen ((Prints.offer op d).andThen
        ((Prints.offer " " d).andThen (prints d rhs)))
      exact ((prints d lhs).andThen behind).of_chars (by simp [layout, chars])
  | prefixOp op arg => by
      -- a space is written before an operand that begins with an operator of its own
      have operand : Prints (fun _ => if arg.isPrefixed then do .offer " "; arg.write else arg.write)
          d d (((if arg.isPrefixed then [Fragment.space] else []) ++ arg.layout).flatMap chars) := by
        refine .ite (fun prefixed => ?_) fun prefixed => ?_
        · rw [prefixed]
          exact (Prints.offer " " d).andThen (prints d arg)
        · rw [prefixed]
          exact prints d arg
      exact (Prints.offer op d).andThen operand
  | postIncrement base =>
      ((prints d base).andThen (.offer "++" d)).of_chars (by simp [layout, chars])
  | postDecrement base =>
      ((prints d base).andThen (.offer "--" d)).of_chars (by simp [layout, chars])
  | call callee args => by
      have each : Prints (fun _ => .commaSeparated true (writeEach args)) d d _ :=
        (Prints.commaSeparated (printsEach d args)).congr fun _ _ _ => by rw [writeEach_eq_map]
      have behind := (Prints.offer "(" d).andThen (each.andThen (.offer ")" d))
      exact ((prints d callee).andThen behind).of_chars (by simp [layout, layoutEach_eq_map, chars])
  | subscript base index => by
      have behind := (Prints.offer "[" d).andThen ((prints d index).andThen (.offer "]" d))
      exact ((prints d base).andThen behind).of_chars (by simp [layout, chars])

theorem printsEach (d : Nat) : (es : List Expr) →
    ∀ e ∈ es, Prints (fun _ => e.write) d d (e.layout.flatMap chars)
  | [] => by simp
  | e :: es => List.forall_mem_cons.2 ⟨prints d e, printsEach d es⟩

end

end Expr

/-! ## Lists of variables -/

theorem Declarator.prints (d : Nat) (name : Declarator) :
    Prints (fun _ => name.write) d d (name.layout.flatMap chars) := by
  cases name with
  | plain name => exact (Prints.offer name d).of_chars (by simp [layout, chars])
  | pointer name =>
      exact ((Prints.offer "*" d).andThen (.offer name d)).of_chars (by simp [layout, chars])

theorem Binding.prints (d : Nat) (b : Binding) :
    Prints (fun _ => b.write) d d (b.layout.flatMap chars) := by
  obtain ⟨name, initial⟩ := b
  cases initial with
  | none => exact ((name.prints d).andThen (.done d)).of_chars (List.append_nil _)
  | some e =>
      have value := (Prints.offer " = " d).andThen (e.prints d)
      exact ((name.prints d).andThen value).of_chars (by simp [layout, chars])

theorem VarDecl.prints (d : Nat) (v : VarDecl) :
    Prints (fun _ => v.write) d d (v.layout.flatMap chars) := by
  have names := Prints.commaSeparated fun b (_ : b ∈ v.bindings) => b.prints d
  have behind := (Prints.offer " " d).andThen (names.andThen (.offer ";" d))
  exact ((Prints.offer v.typeName d).andThen behind).of_chars (by simp [layout, chars])

theorem Param.prints (d : Nat) (p : Param) :
    Prints (fun _ => p.write) d d (p.layout.flatMap chars) := by
  have behind := (Prints.offer " " d).andThen (p.binding.prints d)
  exact ((Prints.offer p.typeName d).andThen behind).of_chars (by simp [layout, chars])

/-! ## Statements -/

theorem prints_guard (d : Nat) (keyword : String) (test : Expr) :
    Prints (fun _ => writeGuard keyword test) d d ((guardLayout keyword test).flatMap chars) := by
  have behind := (Prints.offer " (" d).andThen ((test.prints d).andThen (.offer ") " d))
  exact ((Prints.offer keyword d).andThen behind).of_chars (by simp [guardLayout, chars])

/-- Statements are printed as they are laid out, but with the line break behind each of them and
not before it. -/
def PrintsLines (d : Nat) (ss : List Stmt) : Prop :=
  ∃ cs, '\n' :: cs = (Stmt.layoutLines d ss).flatMap chars ++ ['\n'] ∧
    Prints (fun _ => Stmt.writeLines ss) d d cs

theorem prints_inBraces {d : Nat} {body : List Stmt} (lines : PrintsLines (d + 1) body) :
    Prints (fun _ => .inBraces body.isEmpty (Stmt.writeLines body)) d d
      ((Fragment.inBraces d (Stmt.layoutLines (d + 1) body)).flatMap chars) := by
  obtain ⟨cs, same, lines⟩ := lines
  cases body with
  | nil => exact Prints.offer "\x7b\x7d" d
  | cons s ss =>
      have closing := (Prints.closeBlock d).andThen ((Prints.indent d).andThen (.offer "\x7d" d))
      have inside := (Prints.openBlock d).andThen (lines.andThen closing)
      have braces : Fragment.inBraces d (Stmt.layoutLines (d + 1) (s :: ss)) =
          .word "\x7b" :: Stmt.layoutLines (d + 1) (s :: ss) ++ [.newline d, .word "\x7d"] := by
        rw [Stmt.layoutLines]
        rfl
      apply ((Prints.offer "\x7b\n" d).andThen inside).of_chars
      -- the break that ends the last line is the one before the closing brace
      have lined : '\x7b' :: (('\n' :: cs) ++ (List.replicate (4 * d) ' ' ++ ['\x7d'])) =
          (Fragment.inBraces d (Stmt.layoutLines (d + 1) (s :: ss))).flatMap chars := by
        rw [same, braces]
        simp [chars]
      exact lined

mutual

/-- A statement is printed as it is laid out. -/
theorem Stmt.prints (d : Nat) : (s : Stmt) → Prints (fun _ => s.write) d d ((s.layout d).flatMap chars)
  | .block body => by
      rw [Stmt.layout]
      exact prints_inBraces (Stmt.printsLines (d + 1) body)
  | .conditional test body rest => by
      have behind := (Stmt.prints d body).andThen (Alternatives.prints d rest)
      exact ((prints_guard d "if" test).andThen behind).of_chars (by simp [Stmt.layout])
  | .whileLoop test body => by
      have behind := (test.prints d).andThen ((Prints.offer ") " d).andThen (Stmt.prints d body))
      exact ((Prints.offer "while (" d).andThen behind).of_chars
        (by simp [Stmt.layout, guardLayout, chars])
  | .repeatLoop body =>
      ((Prints.offer "repeat " d).andThen (Stmt.prints d body)).of_chars
        (by simp [Stmt.layout, chars])
  | .forLoop => (Prints.offer "for" d).of_chars (by simp [Stmt.layout, chars])
  | .breakOut => (Prints.offer "break;" d).of_chars (by simp [Stmt.layout, chars])
  | .continueOn => (Prints.offer "continue;" d).of_chars (by simp [Stmt.layout, chars])
  | .returnValue value => by
      have behind := (value.prints d).andThen (.offer ";" d)
      exact ((Prints.offer "return " d).andThen behind).of_chars (by simp [Stmt.layout, chars])
  | .declare decl => (decl.prints d).of_chars (by simp [Stmt.layout])
  | .evaluate value =>
      ((value.prints d).andThen (.offer ";" d)).of_chars (by simp [Stmt.layout, chars])

theorem Alternatives.prints (d : Nat) : (rest : Alternatives) →
    Prints (fun _ => rest.write) d d ((rest.layout d).flatMap chars)
  | .nothing => (Prints.done d).of_chars (by simp [Alternatives.layout])
  | .otherwise body =>
      ((Prints.offer " else " d).andThen (Stmt.prints d body)).of_chars
        (by simp [Alternatives.layout, chars])
  | .elseIf test body rest => by
      have behind := (prints_guard d "elif" test).andThen
        ((Stmt.prints d body).andThen (Alternatives.prints d rest))
      exact ((Prints.offer " " d).andThen behind).of_chars (by simp [Alternatives.layout, chars])

theorem Stmt.printsLines (d : Nat) : (ss : List Stmt) → PrintsLines d ss
  | [] => ⟨[], by simp [Stmt.layoutLines], .done d⟩
  | s :: ss => by
      obtain ⟨cs, same, lines⟩ := Stmt.printsLines d ss
      have line := (Prints.indent d).andThen ((Stmt.prints d s).andThen
        ((Prints.offer "\n" d).andThen lines))
      refine ⟨_, ?_, line⟩
      rw [Stmt.layoutLines, List.cons_append, List.flatMap_cons, List.flatMap_append,
        List.append_assoc, List.append_assoc, ← same]
      rfl

end

/-! ## Programs -/

theorem FuncDecl.prints (f : FuncDecl) :
    Prints (fun _ => f.write) 0 0 (f.layout.flatMap chars) := by
  obtain ⟨typeName, name, params, body⟩ := f
  have list := Prints.commaSeparated fun p (_ : p ∈ params) => p.prints 0
  -- what the head is printed before: a block or a semicolon
  have head {tail : (σ : Type) → Printer σ Unit} {cs : List Char} (behind : Prints tail 0 0 cs) :=
    (Prints.offer typeName 0).andThen ((Prints.offer " " 0).andThen ((name.prints 0).andThen
      ((Prints.offer "(" 0).andThen (list.andThen ((Prints.offer ")" 0).andThen behind)))))
  cases body with
  | none => exact (head (.offer ";" 0)).of_chars (by simp [layout, chars])
  | some body =>
      have block := (Prints.offer " " 0).andThen (prints_inBraces (Stmt.printsLines 1 body))
      exact (head block).of_chars (by simp [layout, chars])

theorem Decl.prints (decl : Decl) : Prints (fun _ => decl.write) 0 0 (decl.layout.flatMap chars) := by
  cases decl with
  | func f => exact f.prints
  | var v => exact v.prints 0
  | param p => exact p.prints 0

/-- A program is printed as its text. -/
theorem Program.prints (p : Program) :
    Prints (fun _ => Decl.writeEach p.decls) 0 0 p.print.toList := by
  rw [Program.print, Fragment.concat, String.toList_ofList, Program.layout]
  induction p.decls with
  | nil => exact .done 0
  | cons decl decls ih =>
      have line := decl.prints.andThen ((Prints.offer "\n" 0).andThen ih)
      exact line.of_chars (by simp [chars])

/-! ## Into a writer -/

/-- A writer of texts takes all. -/
theorem textWriter_takes (texts : List String) (written : String) :
    ∃ last, textWriter.Takes written texts last ∧
      last.toList = written.toList ++ texts.flatMap String.toList := by
  induction texts generalizing written with
  | nil => exact ⟨written, .nil written, (List.append_nil _).symm⟩
  | cons text texts ih =>
      obtain ⟨last, takes, all⟩ := ih (written ++ text)
      refine ⟨last, .cons rfl takes, ?_⟩
      rw [all, String.toList_append, List.append_assoc, List.flatMap_cons]

/-- What a bounded writer has taken whole. -/
theorem boundedWriter_taken {state next : BoundedText} {text : String}
    (h : boundedWriter state text = (next, true)) :
    utf8Length text.toList ≤ state.room ∧
      next = ⟨state.written ++ text, state.room - utf8Length text.toList⟩ := by
  obtain ⟨rfl, whole⟩ := Prod.mk.inj h
  have whole := beq_iff_eq.1 whole
  rw [whole, String.ofList_toList]
  exact ⟨takeFitting_eq_self.1 whole, rfl⟩

/-- What it has kept of a text that it refused. -/
theorem boundedWriter_refused {state last : BoundedText} {text : String}
    (h : boundedWriter state text = (last, false)) :
    state.room < utf8Length text.toList ∧
      last.written = state.written ++ String.ofList (takeFitting state.room text.toList) := by
  obtain ⟨rfl, part⟩ := Prod.mk.inj h
  refine ⟨Nat.lt_of_not_le fun fits => ?_, rfl⟩
  exact beq_eq_false_iff_ne.1 part (takeFitting_eq_self.2 fits)

theorem boundedWriter_takes {state last : BoundedText} {texts : List String}
    (h : boundedWriter.Takes state texts last) :
    utf8Length (texts.flatMap String.toList) ≤ state.room ∧
      last.written.toList = state.written.toList ++ texts.flatMap String.toList := by
  induction h with
  | nil state => exact ⟨Nat.zero_le _, (List.append_nil _).symm⟩
  | @cons state next last text texts offered _ ih =>
      obtain ⟨fits, rfl⟩ := boundedWriter_taken offered
      obtain ⟨behind, all⟩ := ih
      rw [List.flatMap_cons, utf8Length_append, all, String.toList_append, List.append_assoc]
      refine ⟨?_, rfl⟩
      simp only at behind
      omega

theorem boundedWriter_refuses {state last : BoundedText} {texts : List String}
    (h : boundedWriter.Refuses state texts last) :
    state.room < utf8Length (texts.flatMap String.toList) ∧
      last.written.toList =
        state.written.toList ++ takeFitting state.room (texts.flatMap String.toList) := by
  induction h with
  | @here state last text texts offered =>
      obtain ⟨full, kept⟩ := boundedWriter_refused offered
      rw [List.flatMap_cons, takeFitting_append_of_lt full, utf8Length_append, kept,
        String.toList_append, String.toList_ofList]
      exact ⟨Nat.lt_add_right _ full, rfl⟩
  | @later state next last text texts offered _ ih =>
      obtain ⟨fits, rfl⟩ := boundedWriter_taken offered
      obtain ⟨full, kept⟩ := ih
      rw [List.flatMap_cons, takeFitting_append fits, utf8Length_append, kept,
        String.toList_append, List.append_assoc]
      refine ⟨?_, rfl⟩
      simp only at full
      omega

/-- The texts of a program, and what becomes of printing it into a writer that takes them all or
refuses one. -/
theorem Program.writeTo_texts (p : Program) :
    ∃ texts : List String, texts.flatMap String.toList = p.print.toList ∧
      ∀ (σ : Type) (writer : Writer σ) (state last : σ),
        (writer.Takes state texts last → p.writeTo writer state = (last, true)) ∧
        (writer.Refuses state texts last → p.writeTo writer state = (last, false)) := by
  obtain ⟨texts, whole, offers⟩ := p.prints
  refine ⟨texts, whole, fun σ writer state last => ⟨fun takes => ?_, fun refuses => ?_⟩⟩
  · have run : Decl.writeEach p.decls writer ⟨state, 0⟩ = (some (), ⟨last, 0⟩) :=
      (offers σ writer).taken takes
    unfold Program.writeTo
    rw [run]
    rfl
  · obtain ⟨depth, run⟩ : ∃ depth, Decl.writeEach p.decls writer ⟨state, 0⟩ = (none, ⟨last, depth⟩) :=
      (offers σ writer).refused refuses
    unfold Program.writeTo
    rw [run]
    rfl

/-- Printing into bounded room: what is taken of the text is as much of it as fits. -/
theorem Program.printBounded_eq (p : Program) (capacity : Nat) :
    (p.printBounded capacity).1.toList = takeFitting capacity p.print.toList ∧
      ((p.printBounded capacity).2 = true ↔ p.print.utf8ByteSize ≤ capacity) := by
  obtain ⟨texts, whole, run⟩ := p.writeTo_texts
  rw [Program.printBounded, ← utf8Length_toList, ← whole]
  rcases boundedWriter.takes_or_refuses ⟨"", capacity⟩ texts with ⟨last, takes⟩ | ⟨last, refuses⟩
  · obtain ⟨fits, written⟩ := boundedWriter_takes takes
    rw [((run _ _ _ _).1 takes), takeFitting_eq_self.2 fits]
    exact ⟨written, iff_of_true rfl fits⟩
  · obtain ⟨full, written⟩ := boundedWriter_refuses refuses
    rw [((run _ _ _ _).2 refuses)]
    exact ⟨written, iff_of_false Bool.false_ne_true (Nat.not_le.2 full)⟩

/-- Printing into a writer that may refuse. Whatever the tree is, a writer with room for a number
of bytes holds in the end the longest front of the text, in whole characters, that has room, and
the printing succeeds exactly if the whole text has. And any writer is offered the texts that
a writer which takes everything is offered, one after another: all of them if it takes all, and
then the printing succeeds; and if not, those up to and including the first that it refuses. -/
theorem print_into_writer (p : Program) :
    (∀ capacity : Nat,
      (p.printBounded capacity).1.toList <+: p.print.toList ∧
      (p.printBounded capacity).1.utf8ByteSize ≤ capacity ∧
      (∀ front : String, front.toList <+: p.print.toList → front.utf8ByteSize ≤ capacity →
        front.toList <+: (p.printBounded capacity).1.toList) ∧
      ((p.printBounded capacity).2 = true ↔ p.print.utf8ByteSize ≤ capacity)) ∧
    ∃ texts : List String,
      p.writeTo textWriter.noted ("", []) = ((p.print, texts), true) ∧
      ∀ (σ : Type) (writer : Writer σ) (state : σ),
        (∃ last, writer.Takes state texts last ∧ p.writeTo writer state = (last, true) ∧
          p.writeTo writer.noted (state, []) = ((last, texts), true)) ∨
        ∃ front refused behind mid last, texts = front ++ refused :: behind ∧
          writer.Takes state front mid ∧ writer mid refused = (last, false) ∧
          p.writeTo writer state = (last, false) ∧
          p.writeTo writer.noted (state, []) = ((last, front ++ [refused]), false) := by
  constructor
  · intro capacity
    obtain ⟨written, complete⟩ := p.printBounded_eq capacity
    rw [← utf8Length_toList, written]
    refine ⟨takeFitting_isPrefix _ _, takeFitting_fits _ _, fun front within fits => ?_, complete⟩
    rw [← utf8Length_toList] at fits
    exact prefix_takeFitting within fits
  · obtain ⟨texts, whole, run⟩ := p.writeTo_texts
    refine ⟨texts, ?_, fun σ writer state => ?_⟩
    · obtain ⟨last, takes, all⟩ := textWriter_takes texts ""
      obtain rfl : last = p.print := String.toList_inj.1 (all.trans whole)
      exact (run _ _ _ _).1 (takes.noted [])
    · rcases writer.takes_or_refuses state texts with ⟨last, takes⟩ | ⟨last, refuses⟩
      · exact .inl ⟨last, takes, (run _ _ _ _).1 takes, (run _ _ _ _).1 (takes.noted [])⟩
      · obtain ⟨front, refused, behind, mid, rfl, takes, refusal⟩ := refuses.split
        have noted := takes.noted_refuses refusal behind []
        exact .inr ⟨front, refused, behind, mid, last, rfl, takes, refusal,
          (run _ _ _ _).2 refuses, (run _ _ _ _).2 noted⟩

/-- The second byte of the name has no room, so no part of its character is kept. -/
example : (Program.mk [.var ⟨"char", [⟨.pointer "é", none⟩]⟩]).printBounded 7 =
    ("char *", false) := by
  decide

end ProcLang
