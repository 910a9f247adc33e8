import TapeTower.Proofs.Input.Sequence

/-!
# The bytes of a text

A text is read back from its UTF-8 form (`ofBytes?_bytes`). A byte below `0x80` is no part of a
longer form (`le_of_mem_utf8EncodeChar`), so that a line feed among the bytes is a line feed of
the text, and a place in front of such a byte or behind it is between two characters
(`isBoundary_of_lt`).
-/

namespace TapeTower.Text

open String (utf8EncodeChar)

/-- Bytes that may follow are large if the next one has to be. -/
lemma le_of_mem_follow {low high value : UInt8} {tail : List UInt8} (hlow : 0x80 ≤ low)
    (h : Follow low high tail) (hmem : value ∈ tail) : 0x80 ≤ value := by
  induction tail generalizing low high with
  | nil => cases hmem
  | cons second tail ih =>
    rcases List.mem_cons.mp hmem with rfl | hmem
    · exact UInt8.le_trans hlow h.1.1
    · exact ih (by decide) h.2 hmem

/-- The form of a character that is not ASCII has large bytes only. -/
lemma le_of_mem_utf8EncodeChar {c : Char} {value : UInt8} (hc : 0x80 ≤ c.toNat)
    (hmem : value ∈ utf8EncodeChar c) : 0x80 ≤ value := by
  have hbounds : ∀ form ∈ sequenceForms, 0x80 ≤ form.first ∧ 0x80 ≤ form.low := by decide
  obtain ⟨form, first, tail, hfits, henc⟩ := SequenceForm.exists_fits_utf8EncodeChar hc
  obtain ⟨hform, hfirst, -⟩ := SequenceForm.ofFirst?_eq_some_iff.mp hfits.ofFirst?_eq
  obtain ⟨hlarge, hlow⟩ := hbounds form hform
  rw [henc] at hmem
  rcases List.mem_cons.mp hmem with rfl | hmem
  · exact UInt8.le_trans hlarge hfirst
  · exact le_of_mem_follow hlow hfits.follow hmem

/-- A character with a small byte in its form is ASCII. -/
lemma toNat_lt_of_mem_utf8EncodeChar {c : Char} {value : UInt8} (hsmall : value < 0x80)
    (hmem : value ∈ utf8EncodeChar c) : c.toNat < 0x80 := by
  by_contra hlarge
  have hle := le_of_mem_utf8EncodeChar (Nat.le_of_not_lt hlarge) hmem
  exact absurd hsmall (UInt8.not_lt.mpr hle)

/-- A number of bytes after which a character of the text begins or the text ends. -/
def IsBoundary (text : List Char) (offset : Nat) : Prop :=
  ∃ s t, text = s ++ t ∧ offset = byteLength s

lemma isBoundary_zero (text : List Char) : IsBoundary text 0 :=
  ⟨[], text, rfl, rfl⟩

lemma IsBoundary.cons {text : List Char} {offset : Nat} (h : IsBoundary text offset) (c : Char) :
    IsBoundary (c :: text) (c.utf8Size + offset) := by
  obtain ⟨s, t, rfl, rfl⟩ := h
  exact ⟨c :: s, t, rfl, rfl⟩

/-- A byte below `0x80` is a character of its own: there is a boundary in front of it and one
behind it. -/
lemma isBoundary_of_lt {text : List Char} {offset : Nat} {value : UInt8}
    (h : (bytes text)[offset]? = some value) (hsmall : value < 0x80) :
    IsBoundary text offset ∧ IsBoundary text (offset + 1) := by
  induction text generalizing offset with
  | nil => cases h
  | cons c text ih =>
    have hbytes : bytes (c :: text) = utf8EncodeChar c ++ bytes text := List.flatMap_cons
    have hlength : (utf8EncodeChar c).length = c.utf8Size := String.length_utf8EncodeChar c
    rw [hbytes] at h
    by_cases hoffset : offset < (utf8EncodeChar c).length
    · rw [List.getElem?_append_left hoffset] at h
      have hascii := toNat_lt_of_mem_utf8EncodeChar hsmall (List.mem_of_getElem? h)
      have hone : c.utf8Size = 1 := by
        rw [← hlength, utf8EncodeChar_one hascii, List.length_singleton]
      obtain rfl : offset = 0 := by omega
      refine ⟨isBoundary_zero _, ?_⟩
      have hnext := (isBoundary_zero text).cons c
      rwa [hone] at hnext
    · obtain ⟨offset, rfl⟩ := Nat.exists_eq_add_of_le (Nat.le_of_not_lt hoffset)
      rw [List.getElem?_append_right (Nat.le_add_right _ _), Nat.add_sub_cancel_left] at h
      rw [hlength, Nat.add_assoc]
      exact ⟨(ih h).1.cons c, (ih h).2.cons c⟩

end TapeTower.Text
