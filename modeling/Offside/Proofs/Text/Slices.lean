import Offside.Text.Basic

/-!
# Boundaries and slices

An offset is a boundary of a text when a character starts there or the text ends there, and only
between boundaries can a text be cut. In terms of its characters, the boundaries of a text are the
sizes of its prefixes.

Results:
* `isBoundary_iff`: the boundaries of a text.
* `slice?_of_append`: what lies between the sizes of two prefixes.
-/

namespace Offside.Text

/-- Does a character of the text, or its end, stand at this offset? -/
def IsBoundary (text : String) (offset : Nat) : Prop := String.Pos.Raw.IsValid text ⟨offset⟩

instance (text : String) (offset : Nat) : Decidable (IsBoundary text offset) :=
  inferInstanceAs (Decidable (String.Pos.Raw.IsValid text ⟨offset⟩))

/-- The text between two offsets. It is defined only if both are boundaries, in their order. -/
def slice? (text : String) (i j : Nat) : Option String :=
  if h : IsBoundary text i ∧ IsBoundary text j ∧ i ≤ j then
    some (String.extract (text.pos ⟨i⟩ h.1) (text.pos ⟨j⟩ h.2.1))
  else none

/-- A difference that may not fall below zero. -/
def sub? (m n : Nat) : Option Nat := if n ≤ m then some (m - n) else none

theorem utf8ByteSize_ofList (cs : List Char) : (String.ofList cs).utf8ByteSize = byteLength cs := by
  induction cs with
  | nil => rfl
  | cons c cs ih =>
    rw [← List.singleton_append, String.ofList_append, String.utf8ByteSize_append, ih,
      ← String.singleton_eq_ofList, String.utf8ByteSize_singleton]
    rfl

theorem byteLength_toList (text : String) : byteLength text.toList = text.utf8ByteSize := by
  rw [← utf8ByteSize_ofList, String.ofList_toList]

theorem isBoundary_iff {text : String} {offset : Nat} :
    IsBoundary text offset ↔ ∃ p, p <+: text.toList ∧ byteLength p = offset := by
  unfold IsBoundary
  rw [String.Pos.Raw.isValid_iff_exists_append]
  constructor
  · rintro ⟨a, b, rfl, hend⟩
    refine ⟨a.toList, by simp, ?_⟩
    rw [byteLength_toList]
    exact (congrArg String.Pos.Raw.byteIdx hend).symm
  · rintro ⟨p, ⟨rest, hp⟩, rfl⟩
    refine ⟨String.ofList p, String.ofList rest, ?_, ?_⟩
    · rw [← String.ofList_append, hp, String.ofList_toList]
    · rw [String.Pos.Raw.ext_iff, String.byteIdx_rawEndPos, utf8ByteSize_ofList]

theorem isBoundary_of_append {text : String} {before rest : List Char}
    (h : text.toList = before ++ rest) : IsBoundary text (byteLength before) :=
  isBoundary_iff.2 ⟨before, ⟨rest, h.symm⟩, rfl⟩

theorem slice?_of_append {text : String} {before part rest : List Char}
    (h : text.toList = before ++ (part ++ rest)) :
    slice? text (byteLength before) (byteLength before + byteLength part) =
      some (String.ofList part) := by
  have hi : IsBoundary text (byteLength before) := isBoundary_of_append h
  have hj : IsBoundary text (byteLength before + byteLength part) := by
    rw [← List.append_assoc] at h
    rw [← byteLength_append]
    exact isBoundary_of_append h
  have htext : text = String.ofList before ++ (String.ofList part ++ String.ofList rest) := by
    rw [← String.ofList_append, ← String.ofList_append, ← h, String.ofList_toList]
  unfold slice?
  rw [dif_pos ⟨hi, hj, Nat.le_add_right _ _⟩, Option.some.injEq, ← String.toByteArray_inj,
    String.toByteArray_extract]
  show text.toByteArray.extract (byteLength before) (byteLength before + byteLength part) = _
  rw [htext, String.toByteArray_append, String.toByteArray_append]
  rw [← utf8ByteSize_ofList, ← utf8ByteSize_ofList, ← String.size_toByteArray,
    ← String.size_toByteArray]
  have hskip := ByteArray.extract_append_size_add (a := (String.ofList before).toByteArray)
    (b := (String.ofList part).toByteArray ++ (String.ofList rest).toByteArray) (i := 0)
    (j := (String.ofList part).toByteArray.size)
  rw [Nat.add_zero] at hskip
  rw [hskip, ByteArray.extract_append_eq_left rfl]

end Offside.Text
