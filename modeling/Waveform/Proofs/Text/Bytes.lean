import Waveform.Text.Normal

/-!
# Places in the bytes of a text

Places in a formula are counted in bytes, and the length of characters in bytes is that of their
UTF-8 encoding (`byteLength_eq`). Where a text is put together from parts, each part starts and ends
at a boundary between characters, and the bytes between these two places are the part
(`exists_extract_eq`).
-/

set_option autoImplicit false

namespace Waveform.Text

/-- The bytes that are counted are those of the encoding. -/
theorem byteLength_eq (chars : List Char) :
    byteLength chars = (String.ofList chars).utf8ByteSize := by
  induction chars with
  | nil => rfl
  | cons c chars ih =>
    rw [byteLength_cons, ih, String.ofList_cons, String.utf8ByteSize_append,
      String.utf8ByteSize_singleton]

/-- Between two parts of a text there is a boundary between characters. -/
theorem exists_place {text first second : String} (split : text = first ++ second) :
    ∃ place : text.Pos, place.offset.byteIdx = first.utf8ByteSize := by
  have valid : first.rawEndPos.IsValid text :=
    String.Pos.Raw.isValid_iff_exists_append.mpr ⟨first, second, split, rfl⟩
  exact ⟨⟨first.rawEndPos, valid⟩, rfl⟩

/-- **A part of a text is what stands between the places where it starts and ends.** -/
theorem exists_extract_eq {text first part last : String} (split : text = first ++ part ++ last) :
    ∃ start stop : text.Pos, start.offset.byteIdx = first.utf8ByteSize ∧
      stop.offset.byteIdx = first.utf8ByteSize + part.utf8ByteSize ∧
      text.extract start stop = part := by
  obtain ⟨start, starts⟩ := exists_place (split.trans String.append_assoc)
  obtain ⟨stop, stops⟩ := exists_place split
  rw [String.utf8ByteSize_append] at stops
  refine ⟨start, stop, starts, stops, ?_⟩
  rw [← String.toByteArray_inj, String.toByteArray_extract, starts, stops, split,
    String.append_assoc, String.toByteArray_append, String.toByteArray_append,
    ← Nat.add_zero first.utf8ByteSize, Nat.add_assoc, Nat.zero_add]
  exact ByteArray.extract_append_size_add.trans (ByteArray.extract_append_eq_left rfl)

end Waveform.Text
