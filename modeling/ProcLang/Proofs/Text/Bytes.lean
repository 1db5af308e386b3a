import Mathlib
import ProcLang.Proofs.Text.Lines

/-!
# Lines of texts and lines of bytes

The standard input is divided into lines as bytes, before anything is known about the text that
they may be. In UTF-8 a byte below 128 stands for one character alone (`eq_of_mem_encode`), so
line feeds and carriage returns are found among the bytes of a text where they are among its
characters. It follows that bytes are a text exactly if each of their lines is one
(`isText_iff_lines`).
-/

set_option autoImplicit false

namespace ProcLang

/-! ## Lines one by one -/

section Lines

variable {α : Type} [DecidableEq α] {lf cr : α}

/-- A line without the carriage return that it may end in. -/
def dropReturn (cr : α) (line : List α) : List α :=
  if line.getLast? = some cr then line.dropLast else line

/-- The lines of what begins with a line that is ended. -/
theorem splitLines_cons {line : List α} (one : lf ∉ line) (others : List α) :
    splitLines lf cr (line ++ lf :: others) = dropReturn cr line :: splitLines lf cr others := by
  apply List.ext_getElem?
  intro i
  cases i with
  | zero => exact splitLines_first one others
  | succ i =>
      have behind := @splitLines_behind α _ lf cr line others i
      rw [List.count_eq_zero.2 one, Nat.zero_add, Nat.add_comm] at behind
      exact behind

/-- What has no line feed is one line, if there is anything. -/
theorem splitLines_one {line : List α} (one : lf ∉ line) (nonempty : line ≠ []) :
    splitLines lf cr line = [line] := by
  induction line with
  | nil => exact absurd rfl nonempty
  | cons x xs ih =>
      obtain ⟨other, one⟩ := not_or.1 (mt List.mem_cons.2 one)
      have bare : ¬(x = cr ∧ xs.head? = some lf) := fun h => one (List.mem_of_head? h.2)
      rw [splitLines, if_neg (Ne.symm other), if_neg bare]
      cases xs with
      | nil => rfl
      | cons x' xs => rw [ih one (List.cons_ne_nil _ _)]

end Lines

/-! ## Characters as bytes -/

/-- The bytes of a text in UTF-8. -/
def utf8Form (text : String) : List UInt8 :=
  text.toUTF8.data.toList

/-- Bytes that are the UTF-8 form of a text. -/
def IsText (bytes : List UInt8) : Prop :=
  ∃ text, bytes = utf8Form text

theorem utf8Form_append (s t : String) : utf8Form (s ++ t) = utf8Form s ++ utf8Form t := by
  unfold utf8Form String.toUTF8
  rw [String.toByteArray_append, ByteArray.data_append, Array.toList_append]

theorem utf8Form_eq_flatMap (text : String) :
    utf8Form text = text.toList.flatMap String.utf8EncodeChar := by
  rw [← text.ofList_toList]
  unfold utf8Form String.toUTF8
  rw [String.toByteArray_ofList, List.utf8Encode, List.toList_data_toByteArray,
    String.toList_ofList]

theorem utf8Form_inj {s t : String} (h : utf8Form s = utf8Form t) : s = t :=
  String.toByteArray_inj.1 (ByteArray.ext (Array.toList_inj.1 h))

theorem toNat_toUInt8 {c : Char} (ascii : c.toNat < 128) : c.toUInt8.toNat = c.toNat := by
  show c.val.toUInt8.toNat = c.val.toNat
  rw [UInt32.toNat_toUInt8]
  exact Nat.mod_eq_of_lt (Nat.lt_trans ascii (by decide))

/-- A character has one byte below 128, or only others. -/
theorem encode_cases (c : Char) :
    (c.toNat < 128 ∧ String.utf8EncodeChar c = [c.toUInt8]) ∨
      128 ≤ c.toNat ∧ ∀ b ∈ String.utf8EncodeChar c, 128 ≤ b.toNat := by
  unfold String.utf8EncodeChar
  dsimp only
  split
  next low => exact .inl ⟨Nat.lt_succ_of_le low, rfl⟩
  next high =>
    refine .inr ⟨Nat.not_le.1 high, ?_⟩
    -- two, three or four bytes, of which the first is at least 192 and the others at least 128
    split
    next => simp; omega
    next =>
      split
      next => simp; omega
      next => simp; omega

section Ascii

variable {d : Char} (ascii : d.toNat < 128)

include ascii

theorem encode_of_ascii : String.utf8EncodeChar d = [d.toUInt8] := by
  rcases encode_cases d with ⟨-, encoded⟩ | ⟨high, -⟩
  · exact encoded
  · omega

/-- A byte below 128 is found only where its character is. -/
theorem eq_of_mem_encode {c : Char} (mem : d.toUInt8 ∈ String.utf8EncodeChar c) : c = d := by
  have low := toNat_toUInt8 ascii
  rcases encode_cases c with ⟨ascii', encoded⟩ | ⟨-, high⟩
  · rw [encoded, List.mem_singleton] at mem
    apply Char.toNat_inj.1
    rw [← toNat_toUInt8 ascii', ← mem, low]
  · have bound := high _ mem
    omega

theorem utf8Form_singleton : utf8Form (String.singleton d) = [d.toUInt8] := by
  rw [utf8Form_eq_flatMap, String.toList_singleton, List.flatMap_singleton, encode_of_ascii ascii]

theorem mem_utf8Form {text : String} : d.toUInt8 ∈ utf8Form text ↔ d ∈ text.toList := by
  rw [utf8Form_eq_flatMap, List.mem_flatMap]
  constructor
  · rintro ⟨c, mem, byte⟩
    exact eq_of_mem_encode ascii byte ▸ mem
  · intro mem
    refine ⟨d, mem, ?_⟩
    rw [encode_of_ascii ascii]
    exact List.mem_singleton_self _

theorem flatMap_encode_split {cs : List Char} {before behind : List UInt8}
    (h : cs.flatMap String.utf8EncodeChar = before ++ d.toUInt8 :: behind) :
    ∃ as bs, cs = as ++ d :: bs ∧ before = as.flatMap String.utf8EncodeChar ∧
      behind = bs.flatMap String.utf8EncodeChar := by
  induction cs generalizing before with
  | nil => exact absurd h.symm (List.append_ne_nil_of_right_ne_nil _ (List.cons_ne_nil _ _))
  | cons c cs ih =>
      rw [List.flatMap_cons, List.append_eq_append_iff] at h
      -- the byte is behind those of the first character, or among them
      rcases h with ⟨front, rfl, others⟩ | ⟨tail, encoded, others⟩
      · obtain ⟨as, bs, rfl, rfl, rfl⟩ := ih others
        exact ⟨c :: as, bs, rfl, rfl, rfl⟩
      · cases tail with
        | nil =>
            have rest : cs.flatMap String.utf8EncodeChar = [] ++ d.toUInt8 :: behind := others.symm
            obtain ⟨as, bs, rfl, nothing, rfl⟩ := ih rest
            rw [List.append_nil] at encoded
            refine ⟨c :: as, bs, rfl, ?_, rfl⟩
            rw [List.flatMap_cons, ← nothing, List.append_nil, encoded]
        | cons byte tail =>
            -- the character itself has the byte, so it is all of its bytes
            obtain ⟨rfl, rest⟩ := List.cons.inj others
            obtain rfl : c = d := by
              apply eq_of_mem_encode ascii
              rw [encoded]
              exact List.mem_append_right _ List.mem_cons_self
            rw [encode_of_ascii ascii, List.singleton_eq_append_iff] at encoded
            rcases encoded with ⟨rfl, last⟩ | ⟨-, none⟩
            · obtain rfl := (List.cons.inj last).2
              exact ⟨[], cs, rfl, rfl, rest⟩
            · cases none

/-- A text whose bytes are divided at a byte below 128 is divided at its character. -/
theorem utf8Form_split {text : String} {before behind : List UInt8}
    (h : utf8Form text = before ++ d.toUInt8 :: behind) :
    ∃ s t, text = s ++ String.singleton d ++ t ∧ before = utf8Form s ∧ behind = utf8Form t := by
  rw [utf8Form_eq_flatMap] at h
  obtain ⟨as, bs, split, rfl, rfl⟩ := flatMap_encode_split ascii h
  refine ⟨String.ofList as, String.ofList bs, ?_, ?_, ?_⟩
  · rw [← String.toList_inj, split]
    simp
  · rw [utf8Form_eq_flatMap, String.toList_ofList]
  · rw [utf8Form_eq_flatMap, String.toList_ofList]

/-- Bytes in which a byte below 128 stands are a text exactly if the bytes before and behind it
are. -/
theorem isText_around {before behind : List UInt8} :
    IsText (before ++ d.toUInt8 :: behind) ↔ IsText before ∧ IsText behind := by
  constructor
  · rintro ⟨text, whole⟩
    obtain ⟨s, t, -, hs, ht⟩ := utf8Form_split ascii whole.symm
    exact ⟨⟨s, hs⟩, ⟨t, ht⟩⟩
  · rintro ⟨⟨s, rfl⟩, ⟨t, rfl⟩⟩
    refine ⟨s ++ String.singleton d ++ t, ?_⟩
    rw [utf8Form_append, utf8Form_append, utf8Form_singleton ascii, List.append_assoc]
    rfl

end Ascii

/-! ## Lines of bytes -/

theorem isText_nil : IsText [] :=
  ⟨"", rfl⟩

/-- A carriage return at the end makes no difference to whether a line is a text. -/
theorem isText_dropReturn {line : List UInt8} :
    IsText (dropReturn '\r'.toUInt8 line) ↔ IsText line := by
  unfold dropReturn
  split
  next last =>
    obtain ⟨front, rfl⟩ := List.getLast?_eq_some_iff.1 last
    rw [List.dropLast_concat, isText_around (by decide)]
    exact (and_iff_left isText_nil).symm
  next => exact Iff.rfl

/-- Bytes are a text exactly if each of their lines is one. -/
theorem isText_iff_lines (bytes : List UInt8) :
    IsText bytes ↔ ∀ line ∈ splitLines '\n'.toUInt8 '\r'.toUInt8 bytes, IsText line := by
  by_cases feed : '\n'.toUInt8 ∈ bytes
  -- what stands behind the first line feed has fewer bytes
  · obtain ⟨line, others, rfl, one⟩ := List.eq_append_cons_of_mem feed
    rw [splitLines_cons one, List.forall_mem_cons, isText_dropReturn, ← isText_iff_lines others,
      isText_around (by decide)]
  · by_cases nonempty : bytes = []
    · subst nonempty
      simp [splitLines, isText_nil]
    · rw [splitLines_one feed nonempty, List.forall_mem_singleton]
termination_by bytes.length
decreasing_by
  subst_vars
  simp
  omega

end ProcLang
