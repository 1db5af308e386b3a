import Mathlib.Data.String.Basic
import ProcLang.Text.Utf8
import ProcLang.Token.Basic

/-!
# Spans of a source

A span lies in a source if it ends within it and both its ends stand between two
characters. The slice of such a span is the text between them.
-/

set_option autoImplicit false

namespace ProcLang

namespace Span

/-- The span lies in `source`, both ends on character boundaries. -/
structure Within (s : Span) (source : String) : Prop where
  ordered : s.start ≤ s.stop
  bounded : s.stop ≤ source.utf8ByteSize
  start_isValid : (⟨s.start⟩ : String.Pos.Raw).IsValid source
  stop_isValid : (⟨s.stop⟩ : String.Pos.Raw).IsValid source

/-- The text of `source` between the ends of a span. -/
def slice (s : Span) (source : String) : String :=
  String.Pos.Raw.extract source ⟨s.start⟩ ⟨s.stop⟩

variable {source : String} {before text after : List Char}

/-- The bytes before a place in a text end on a character boundary. -/
theorem isValid_of_append (split : source.toList = before ++ after) :
    (⟨utf8Length before⟩ : String.Pos.Raw).IsValid source := by
  rw [String.Pos.Raw.isValid_iff_exists_append]
  refine ⟨String.ofList before, String.ofList after, ?_, ?_⟩
  · rw [← String.ofList_append, ← split, String.ofList_toList]
  · rw [← String.toList_ofList (l := before), utf8Length_toList, String.toList_ofList]
    rfl

/-- The span of a part of a text lies in the text. -/
theorem within_of_append (split : source.toList = before ++ (text ++ after)) :
    Within ⟨utf8Length before, utf8Length before + utf8Length text⟩ source where
  ordered := Nat.le_add_right _ _
  bounded := by
    rw [← utf8Length_toList, split, utf8Length_append, utf8Length_append, ← Nat.add_assoc]
    exact Nat.le_add_right _ _
  start_isValid := isValid_of_append split
  stop_isValid := by
    have boundary := isValid_of_append (split.trans (List.append_assoc before text after).symm)
    rwa [utf8Length_append] at boundary

/-- The slice of a part of a text is that part. -/
theorem slice_of_append (split : source.toList = before ++ (text ++ after)) :
    slice ⟨utf8Length before, utf8Length before + utf8Length text⟩ source = String.ofList text := by
  have bytes (cs : List Char) : utf8Length cs = String.utf8Len cs := by
    rw [← String.utf8ByteSize_ofList, ← utf8Length_toList, String.toList_ofList]
  have whole : source = String.ofList (before ++ text ++ after) := by
    rw [List.append_assoc, ← split, String.ofList_toList]
  rw [slice, bytes, bytes, whole]
  exact String.extract_of_valid before text after

/-- A span of a source cuts the text before it, its slice and the text behind it. -/
theorem Within.split {s : Span} {text : String} (within : s.Within source)
    (slice : s.slice source = text) :
    ∃ before after, source.toList = before ++ (text.toList ++ after) ∧
      s.start = utf8Length before ∧ s.stop = utf8Length before + utf8Length text.toList := by
  obtain ⟨before, rest, whole, start⟩ :=
    String.Pos.Raw.isValid_iff_exists_append.1 within.start_isValid
  obtain ⟨front, after, whole', stop⟩ :=
    String.Pos.Raw.isValid_iff_exists_append.1 within.stop_isValid
  have start : s.start = utf8Length before.toList :=
    (congrArg String.Pos.Raw.byteIdx start).trans (utf8Length_toList before).symm
  have stop : s.stop = utf8Length front.toList :=
    (congrArg String.Pos.Raw.byteIdx stop).trans (utf8Length_toList front).symm
  have ordered := within.ordered
  -- what stands before the end goes on behind what stands before the beginning
  obtain ⟨part, hpart⟩ : ∃ part, front.toList = before.toList ++ part := by
    have same : before.toList ++ rest.toList = front.toList ++ after.toList := by
      rw [← String.toList_append, ← whole, whole', String.toList_append]
    rcases List.append_eq_append_iff.1 same with ⟨part, hpart, -⟩ | ⟨part, hpart, -⟩
    · exact ⟨part, hpart⟩
    · cases part with
      | nil => exact ⟨[], by rw [hpart, List.append_nil, List.append_nil]⟩
      | cons c part =>
          have := c.utf8Size_pos
          rw [start, stop, hpart, utf8Length_append, utf8Length_cons] at ordered
          omega
  have cut : source.toList = before.toList ++ (part ++ after.toList) := by
    rw [whole', String.toList_append, hpart, List.append_assoc]
  have place : s = ⟨utf8Length before.toList, utf8Length before.toList + utf8Length part⟩ := by
    rw [← utf8Length_append, ← hpart, ← start, ← stop]
  obtain rfl : String.ofList part = text := by
    rw [← slice, place, slice_of_append cut]
  rw [String.toList_ofList]
  exact ⟨before.toList, after.toList, cut, start, congrArg Span.stop place⟩

/-- The end of a source is a place in it. -/
theorem within_end (source : String) :
    Within ⟨source.utf8ByteSize, source.utf8ByteSize⟩ source := by
  have whole : source.toList = source.toList ++ ([] ++ []) := (List.append_nil _).symm
  have within := within_of_append whole
  rwa [utf8Length_toList] at within

/-- Nothing stands at the end of a source. -/
theorem slice_end (source : String) :
    slice ⟨source.utf8ByteSize, source.utf8ByteSize⟩ source = "" := by
  have whole : source.toList = source.toList ++ ([] ++ []) := (List.append_nil _).symm
  have nothing := slice_of_append whole
  rwa [utf8Length_toList] at nothing

end Span

/-- The text of `source` from a byte offset on. -/
def textFrom (source : String) (offset : Nat) : List Char :=
  ((Span.mk offset source.utf8ByteSize).slice source).toList

theorem textFrom_of_append {source : String} {before after : List Char}
    (split : source.toList = before ++ after) : textFrom source (utf8Length before) = after := by
  have size : source.utf8ByteSize = utf8Length before + utf8Length after := by
    rw [← utf8Length_toList, split, utf8Length_append]
  have whole : source.toList = before ++ (after ++ []) := by
    rw [List.append_nil, split]
  rw [textFrom, size, Span.slice_of_append whole, String.toList_ofList]

end ProcLang
