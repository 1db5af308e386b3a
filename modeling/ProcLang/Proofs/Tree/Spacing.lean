import ProcLang.Proofs.Lexical.Scan
import ProcLang.Tree.Layout

/-!
# Fragments that hold lexemes apart

A sequence of fragments holds a list of lexemes if its words are their texts and every
word stands apart from what follows it; its text is then scanned to exactly these
lexemes (`Holds.scan_eq`). `Carries` is the form in which this is proved of a layout: the
fragments may be put before any others that begin with no letter, digit or point.
-/

set_option autoImplicit false

namespace ProcLang

/-! ## Characters that join nothing -/

/-- Texts that can follow each other's characters in an operator or a comment mark. -/
theorem isPrefix_of_joins {c d : Char} {cs : List Char} (notDigit : c.isDigit = false)
    (notWord : isWordStart c = false) (h : joins (c :: cs) d = true) :
    ∃ longer ∈ "//" :: operators.map Prod.fst, c :: cs ++ [d] <+: longer.toList := by
  simp only [joins, notDigit, notWord, Bool.false_eq_true, if_false] at h
  obtain ⟨longer, known, joined⟩ := List.any_eq_true.1 h
  exact ⟨longer, known, List.isPrefixOf_iff_prefix.1 joined⟩

/-- The characters behind the first one in operators and in the comment mark. -/
theorem tail_chars : ∀ longer ∈ "//" :: operators.map Prod.fst, ∀ d ∈ longer.toList.tail,
    isBlank d = false ∧ d.isDigit = false ∧ isWordStart d = false ∧ d ≠ '"' ∧ d ≠ '\'' ∧ d ≠ '(' := by
  have check : ∀ longer ∈ "//" :: operators.map Prod.fst, longer.toList.tail.all (fun d =>
      !isBlank d && !d.isDigit && !isWordStart d && d != '"' && d != '\'' && d != '(') = true := by
    decide
  intro longer known d hd
  have behind := List.all_eq_true.1 (check longer known) d hd
  simpa [and_assoc] using behind

theorem mem_tail_of_joins {c d : Char} {cs : List Char} (notDigit : c.isDigit = false)
    (notWord : isWordStart c = false) (h : joins (c :: cs) d = true) :
    ∃ longer ∈ "//" :: operators.map Prod.fst, d ∈ longer.toList.tail := by
  obtain ⟨longer, known, behind, htext⟩ := isPrefix_of_joins notDigit notWord h
  refine ⟨longer, known, ?_⟩
  rw [← htext]
  simp

/-- A blank joins nothing. -/
theorem joins_blank {d : Char} (blank : isBlank d = true) (cs : List Char) :
    joins cs d = false := by
  cases cs with
  | nil => rfl
  | cons c cs =>
      cases hdigit : c.isDigit with
      | true =>
          have notDigit : d.isDigit = false := by
            cases h : d.isDigit with
            | false => rfl
            | true => exact absurd (not_blank_of_isDigit h) (by rw [blank]; simp)
          have notPoint : d ≠ '.' := by
            rintro rfl
            exact absurd blank (by decide)
          simp [joins, hdigit, notDigit, notPoint]
      | false =>
          cases hword : isWordStart c with
          | true =>
              simp only [joins, hdigit, hword, Bool.false_eq_true, if_false, if_true]
              rcases eq_of_isBlank blank with rfl | rfl | rfl | rfl | rfl <;> decide
          | false =>
              cases hjoins : joins (c :: cs) d with
              | false => rfl
              | true =>
                  obtain ⟨longer, known, hd⟩ := mem_tail_of_joins hdigit hword hjoins
                  have := (tail_chars longer known d hd).1
                  exact absurd blank (by rw [this]; simp)

/-- Texts that no character joins: marks that begin no longer operator, and quoted
literals. -/
def IsSolid (cs : List Char) : Prop :=
  ∃ c, cs.head? = some c ∧ c.isDigit = false ∧ isWordStart c = false ∧
    ∀ longer ∈ "//" :: operators.map Prod.fst,
      cs.isPrefixOf longer.toList = true → longer.toList.length ≤ cs.length

theorem IsSolid.apart {cs : List Char} (h : IsSolid cs) (rest : List Char) : Apart cs rest := by
  intro d _
  obtain ⟨c, hhead, notDigit, notWord, longest⟩ := h
  cases cs with
  | nil => rfl
  | cons c' cs =>
      obtain rfl : c' = c := Option.some.inj hhead
      cases hjoins : joins (c' :: cs) d with
      | false => rfl
      | true =>
          obtain ⟨longer, known, joined⟩ := isPrefix_of_joins notDigit notWord hjoins
          have short := longest longer known
            (List.isPrefixOf_iff_prefix.2 ((List.prefix_append _ _).trans joined))
          have long := joined.length_le
          rw [List.length_append, List.length_singleton] at long
          omega

/-- A quoted literal. -/
theorem isSolid_of_quote {c : Char} (quote : c = '"' ∨ c = '\'') (cs : List Char) :
    IsSolid (c :: cs) := by
  have unlike : ∀ longer ∈ "//" :: operators.map Prod.fst,
      longer.toList.head? ≠ some '"' ∧ longer.toList.head? ≠ some '\'' := by
    decide
  refine ⟨c, rfl, ?_, ?_, fun longer known joined => ?_⟩
  · rcases quote with rfl | rfl <;> decide
  · rcases quote with rfl | rfl <;> decide
  · obtain ⟨behind, htext⟩ := List.isPrefixOf_iff_prefix.1 joined
    obtain ⟨notString, notChar⟩ := unlike longer known
    rw [← htext] at notString notChar
    rcases quote with rfl | rfl
    · exact absurd rfl notString
    · exact absurd rfl notChar

/-- Texts that no operator is are joined by letters, digits and points only. -/
theorem apart_of_plain {cs rest : List Char}
    (plain : IsSolid cs ∨ cs.head?.any (fun c => c.isDigit || isWordStart c) = true)
    (stops : ∀ d ∈ rest.head?, isWordChar d = false ∧ d ≠ '.') : Apart cs rest := by
  rcases plain with solid | word
  · exact solid.apart _
  · intro d hd
    obtain ⟨notWordChar, notPoint⟩ := stops d hd
    have notDigit : d.isDigit = false := by
      simp only [isWordChar, Char.isAlphanum, Bool.or_eq_false_iff] at notWordChar
      exact notWordChar.1.2
    cases cs with
    | nil => rfl
    | cons c cs =>
        unfold joins
        simp only
        split
        · simp [notDigit, notPoint]
        · split
          · exact notWordChar
          next notDigit notWord =>
            simp [notDigit, notWord] at word

/-! ## Fragments -/

namespace Fragment

/-- The fragments hold the lexemes, each word apart from the text behind it. -/
inductive Holds : List Fragment → List Lexeme → Prop where
  | nil : Holds [] []
  | space {fs : List Fragment} {ls : List Lexeme} : Holds fs ls → Holds (.space :: fs) ls
  | newline {fs : List Fragment} {ls : List Lexeme} (depth : Nat) :
      Holds fs ls → Holds (.newline depth :: fs) ls
  | word {fs : List Fragment} {ls : List Lexeme} {l : Lexeme} : l.kind.SpellsText l.text →
      Apart l.text.toList (fs.flatMap chars) → Holds fs ls → Holds (.word l.text :: fs) (l :: ls)

theorem scan_replicate_blank (n : Nat) (cs : List Char) :
    scan (List.replicate n ' ' ++ cs) = scan cs := by
  induction n with
  | zero => rfl
  | succ n ih => rw [List.replicate_succ, List.cons_append, scan_blank (by decide), ih]

/-- The text of the fragments is scanned to the lexemes they hold. -/
theorem Holds.scan_eq {fs : List Fragment} {ls : List Lexeme} (h : Holds fs ls) :
    scan (fs.flatMap chars) = some ls := by
  induction h with
  | nil => exact scan_nil
  | space _ ih =>
      rw [List.flatMap_cons]
      exact (scan_blank (by decide)).trans ih
  | newline depth _ ih =>
      rw [List.flatMap_cons]
      exact (scan_blank (by decide)).trans ((scan_replicate_blank _ _).trans ih)
  | word spells apart _ ih =>
      rw [List.flatMap_cons]
      apply (scan_lexeme spells apart).trans
      rw [ih]
      rfl

theorem Holds.spells {fs : List Fragment} {ls : List Lexeme} (h : Holds fs ls) :
    ∀ l ∈ ls, l.kind.SpellsText l.text := by
  induction h with
  | nil => simp
  | space _ ih => exact ih
  | newline depth _ ih => exact ih
  | word spells _ _ ih => exact List.forall_mem_cons.2 ⟨spells, ih⟩

/-- The text of the fragments does not begin with a letter, a digit or a point, so that
no word is continued by it. -/
def Stops (fs : List Fragment) : Prop :=
  ∀ d ∈ (fs.flatMap chars).head?, isWordChar d = false ∧ d ≠ '.'

/-- Fragments in front of others stop a word if they do so themselves, or are none. -/
def Stopping (gs : List Fragment) : Prop :=
  ∀ fs, Stops fs → Stops (gs ++ fs)

/-- Wherever the fragments `gs` are put before others that stop a word, they hold the
lexemes `ks`. -/
def Carries (gs : List Fragment) (ks : List Lexeme) : Prop :=
  ∀ fs ls, Holds fs ls → Stops fs → Holds (gs ++ fs) (ks ++ ls)

variable {gs gs' : List Fragment} {ks ks' : List Lexeme} {l : Lexeme}

theorem stops_nil : Stops [] := by
  simp [Stops]

theorem stopping_nil : Stopping [] := fun _ h => h

theorem stops_space (fs : List Fragment) : Stops (.space :: fs) := by
  intro d hd
  obtain rfl : ' ' = d := by simpa [chars] using hd
  decide

theorem stops_newline (depth : Nat) (fs : List Fragment) : Stops (.newline depth :: fs) := by
  intro d hd
  obtain rfl : '\n' = d := by simpa [chars] using hd
  decide

theorem stopping_space (gs : List Fragment) : Stopping (.space :: gs) := fun fs _ =>
  stops_space (gs ++ fs)

theorem stopping_newline (depth : Nat) (gs : List Fragment) : Stopping (.newline depth :: gs) :=
  fun fs _ => stops_newline depth (gs ++ fs)

/-- A mark stops a word. -/
theorem stopping_mark {text : String} (nonempty : text.toList ≠ [])
    (mark : text.toList.head?.all (fun d => !isWordChar d && d != '.') = true)
    (gs : List Fragment) : Stopping (.word text :: gs) := by
  intro fs _ d hd
  obtain ⟨c, cs, hc⟩ := List.exists_cons_of_ne_nil nonempty
  have htext : (text.toList ++ (gs ++ fs).flatMap chars).head? = some d := hd
  rw [hc] at mark htext
  obtain rfl := Option.some.inj htext
  simpa using mark

theorem carries_nil : Carries [] [] := fun _ _ h _ => h

theorem Carries.afterSpace (h : Carries gs ks) : Carries (.space :: gs) ks := fun fs ls hold hs =>
  .space (h fs ls hold hs)

theorem Carries.afterNewline (depth : Nat) (h : Carries gs ks) :
    Carries (.newline depth :: gs) ks := fun fs ls hold hs =>
  .newline depth (h fs ls hold hs)

theorem Carries.append (h : Carries gs ks) (h' : Carries gs' ks') (stopping : Stopping gs') :
    Carries (gs ++ gs') (ks ++ ks') := by
  intro fs ls hold hs
  rw [List.append_assoc, List.append_assoc]
  exact h _ _ (h' fs ls hold hs) (stopping fs hs)

/-- A word before a space. -/
theorem Carries.spaced (spells : l.kind.SpellsText l.text) (h : Carries gs ks) :
    Carries (.word l.text :: .space :: gs) (l :: ks) := by
  intro fs ls hold hs
  refine .word spells (fun d hd => ?_) (.space (h fs ls hold hs))
  obtain rfl : ' ' = d := by simpa [chars] using hd
  exact joins_blank (by decide) _

/-- A word that nothing joins. -/
theorem Carries.solid (spells : l.kind.SpellsText l.text) (solid : IsSolid l.text.toList)
    (h : Carries gs ks) : Carries (.word l.text :: gs) (l :: ks) := fun fs ls hold hs =>
  .word spells (solid.apart _) (h fs ls hold hs)

/-- A word that no operator is. -/
theorem carries_word (spells : l.kind.SpellsText l.text)
    (plain : IsSolid l.text.toList ∨ l.text.toList.head?.any
      (fun c => c.isDigit || isWordStart c) = true) : Carries [.word l.text] [l] :=
  fun _ _ hold hs => .word spells (apart_of_plain plain hs) hold

end Fragment

end ProcLang
