/-!
# UTF-8 lengths

Places in a source and room in a writer are counted in UTF-8 bytes, texts are taken
apart as lists of characters; the two functions below join the two counts.
-/

set_option autoImplicit false

namespace ProcLang

/-- Number of bytes of the UTF-8 form of `cs`. -/
def utf8Length : List Char → Nat
  | [] => 0
  | c :: cs => c.utf8Size + utf8Length cs

/-- The longest run of whole characters at the head of `cs` that fits into `room`
bytes. -/
def takeFitting (room : Nat) : List Char → List Char
  | [] => []
  | c :: cs =>
      if c.utf8Size ≤ room then c :: takeFitting (room - c.utf8Size) cs else []

@[simp] theorem utf8Length_nil : utf8Length [] = 0 := rfl

@[simp] theorem utf8Length_cons (c : Char) (cs : List Char) :
    utf8Length (c :: cs) = c.utf8Size + utf8Length cs := rfl

@[simp] theorem utf8Length_append (cs ds : List Char) :
    utf8Length (cs ++ ds) = utf8Length cs + utf8Length ds := by
  induction cs with
  | nil => simp
  | cons c cs ih => simp [ih, Nat.add_assoc]

/-- The bytes of the characters of a string are those of the string. -/
theorem utf8Length_toList (s : String) : utf8Length s.toList = s.utf8ByteSize := by
  rw [← s.ofList_toList]
  generalize s.toList = cs
  rw [String.toList_ofList]
  induction cs with
  | nil => rfl
  | cons c cs ih =>
      rw [String.ofList_cons, String.utf8ByteSize_append, String.utf8ByteSize_singleton, ← ih]
      rfl

/-! ## What fits -/

theorem takeFitting_isPrefix (room : Nat) (cs : List Char) : takeFitting room cs <+: cs := by
  induction cs generalizing room with
  | nil => exact List.nil_prefix
  | cons c cs ih =>
      rw [takeFitting]
      split
      · exact List.cons_prefix_cons.2 ⟨rfl, ih _⟩
      · exact List.nil_prefix

theorem takeFitting_fits (room : Nat) (cs : List Char) :
    utf8Length (takeFitting room cs) ≤ room := by
  induction cs generalizing room with
  | nil => exact Nat.zero_le room
  | cons c cs ih =>
      rw [takeFitting]
      split
      · have behind := ih (room - c.utf8Size)
        rw [utf8Length_cons]
        omega
      · exact Nat.zero_le room

/-- Every front that fits is a front of what is taken. -/
theorem prefix_takeFitting {room : Nat} {front cs : List Char} (h : front <+: cs)
    (fits : utf8Length front ≤ room) : front <+: takeFitting room cs := by
  induction front generalizing room cs with
  | nil => exact List.nil_prefix
  | cons c front ih =>
      obtain ⟨rest, rfl⟩ := h
      rw [utf8Length_cons] at fits
      rw [List.cons_append, takeFitting, if_pos (by omega)]
      exact List.cons_prefix_cons.2 ⟨rfl, ih (List.prefix_append _ _) (by omega)⟩

/-- All of a text is taken exactly if it fits. -/
theorem takeFitting_eq_self {room : Nat} {cs : List Char} :
    takeFitting room cs = cs ↔ utf8Length cs ≤ room := by
  constructor
  · intro all
    rw [← all]
    exact takeFitting_fits room cs
  · intro fits
    have whole := prefix_takeFitting (List.prefix_refl cs) fits
    exact (takeFitting_isPrefix room cs).eq_of_length_le whole.length_le

/-- Behind a text that fits, the rest of the room is filled. -/
theorem takeFitting_append {room : Nat} {cs : List Char} (fits : utf8Length cs ≤ room)
    (ds : List Char) :
    takeFitting room (cs ++ ds) = cs ++ takeFitting (room - utf8Length cs) ds := by
  induction cs generalizing room with
  | nil => rfl
  | cons c cs ih =>
      rw [utf8Length_cons] at fits ⊢
      rw [List.cons_append, takeFitting, if_pos (by omega), ih (by omega), Nat.sub_sub]
      rfl

/-- Behind a text that does not fit, nothing more is taken. -/
theorem takeFitting_append_of_lt {room : Nat} {cs : List Char} (full : room < utf8Length cs)
    (ds : List Char) : takeFitting room (cs ++ ds) = takeFitting room cs := by
  induction cs generalizing room with
  | nil => exact absurd full (Nat.not_lt_zero room)
  | cons c cs ih =>
      rw [utf8Length_cons] at full
      rw [List.cons_append, takeFitting, takeFitting]
      split
      · rw [ih (by omega)]
      · rfl

end ProcLang
