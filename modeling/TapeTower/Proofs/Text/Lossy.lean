import Mathlib.Tactic.Common
import TapeTower.Input.Character
import TapeTower.Text.Bytes

/-!
# Lossy decoding of UTF-8

Bytes that need not be UTF-8 are decoded as the Unicode standard recommends. Where the UTF-8
form of a character stands, it is decoded to the character. Where none stands, the maximal
subpart there is decoded to one replacement character: the longest piece that begins the form
of some character or, if no piece does, a single byte.

`Decodes` says this with nothing but the UTF-8 forms of the characters, and knows no ranges
of bytes. There is only one way to decode some bytes (`Decodes.unique`).
-/

namespace TapeTower.Text

/-! ### Maximal subparts -/

/-- Some bytes begin a character: they are the first bytes of its UTF-8 form, or all of it. -/
def BeginsCharacter (part : List UInt8) : Prop :=
  ∃ c : Char, part <+: String.utf8EncodeChar c

/-- The bytes `part` in front of `rest` are the maximal subpart of a place where no character
stands. -/
structure IsMaximalSubpart (part rest : List UInt8) : Prop where
  ne_nil : part ≠ []
  /-- No character stands here. -/
  illFormed : ∀ c : Char, ¬ String.utf8EncodeChar c <+: part ++ rest
  /-- The subpart could go on as a character, or it is a single byte. -/
  begins : BeginsCharacter part ∨ part.length = 1
  /-- Nothing longer could. -/
  maximal : ∀ longer, longer <+: part ++ rest → BeginsCharacter longer →
    longer.length ≤ part.length

/-! ### Decoding -/

/-- Of the bytes `part ++ rest` the first ones, `part`, are decoded to a code point. -/
inductive DecodesFirst (part rest : List UInt8) : (code : Nat) → Prop
  | character (c : Char) (hpart : part = String.utf8EncodeChar c) : DecodesFirst part rest c.toNat
  | broken (hpart : IsMaximalSubpart part rest) : DecodesFirst part rest replacement

/-- Some bytes are decoded to these code points. -/
inductive Decodes : (bytes : List UInt8) → (codes : List Nat) → Prop
  | nil : Decodes [] []
  | cons {part rest : List UInt8} {code : Nat} {codes : List Nat}
      (hfirst : DecodesFirst part rest code) (hrest : Decodes rest codes) :
      Decodes (part ++ rest) (code :: codes)

/-- The UTF-8 form of a text is decoded to its characters. -/
lemma decodes_bytes (text : List Char) : Decodes (Text.bytes text) (text.map Char.toNat) := by
  induction text with
  | nil => exact .nil
  | cons c text ih =>
    rw [Text.bytes, List.flatMap_cons, List.map_cons]
    exact .cons (.character c rfl) ih

/-- Only code points of characters come out. -/
lemma Decodes.isValidChar {bytes : List UInt8} {codes : List Nat} (h : Decodes bytes codes) :
    ∀ code ∈ codes, code.isValidChar := by
  induction h with
  | nil => simp
  | cons hfirst _ ih =>
    rw [List.forall_mem_cons]
    refine ⟨?_, ih⟩
    cases hfirst with
    | character c => exact c.valid
    | broken => exact Or.inr ⟨by decide, by decide⟩

/-! ### There is one way to decode -/

/-- A character is known from its UTF-8 form, whatever follows. -/
lemma eq_of_utf8EncodeChar_append {c c' : Char} {s s' : List UInt8}
    (h : String.utf8EncodeChar c ++ s = String.utf8EncodeChar c' ++ s') : c = c' := by
  have hc := ByteArray.utf8DecodeChar?_utf8EncodeChar_append (b := s.toByteArray) (c := c)
  have hc' := ByteArray.utf8DecodeChar?_utf8EncodeChar_append (b := s'.toByteArray) (c := c')
  rw [← List.toByteArray_append] at hc hc'
  rw [h, hc'] at hc
  exact (Option.some.inj hc).symm

/-- Two maximal subparts of the same bytes have the same length. -/
lemma IsMaximalSubpart.length_le {part rest part' rest' : List UInt8}
    (h : IsMaximalSubpart part rest) (h' : IsMaximalSubpart part' rest')
    (heq : part ++ rest = part' ++ rest') : part.length ≤ part'.length := by
  rcases h.begins with hbegins | hsingle
  · refine h'.maximal part ?_ hbegins
    rw [← heq]
    exact List.prefix_append part rest
  · rw [hsingle]
    exact List.length_pos_iff.mpr h'.ne_nil

/-- What stands first is decoded in one way. -/
lemma DecodesFirst.unique {part rest part' rest' : List UInt8} {code code' : Nat}
    (h : DecodesFirst part rest code) (h' : DecodesFirst part' rest' code')
    (heq : part ++ rest = part' ++ rest') : part = part' ∧ rest = rest' ∧ code = code' := by
  cases h with
  | character c hpart =>
    subst hpart
    cases h' with
    | character c' hpart' =>
      subst hpart'
      obtain rfl := eq_of_utf8EncodeChar_append heq
      exact ⟨rfl, List.append_cancel_left heq, rfl⟩
    | broken hpart' => exact absurd ⟨rest, heq⟩ (hpart'.illFormed c)
  | broken hpart =>
    cases h' with
    | character c' hpart' =>
      subst hpart'
      exact absurd ⟨rest', heq.symm⟩ (hpart.illFormed c')
    | broken hpart' =>
      have hlength := Nat.le_antisymm (hpart.length_le hpart' heq) (hpart'.length_le hpart heq.symm)
      obtain ⟨hpart, hrest⟩ := List.append_inj heq hlength
      exact ⟨hpart, hrest, rfl⟩

lemma DecodesFirst.ne_nil {part rest : List UInt8} {code : Nat} (h : DecodesFirst part rest code) :
    part ≠ [] := by
  cases h with
  | character c hpart =>
    rw [hpart]
    exact String.utf8EncodeChar_ne_nil
  | broken hpart => exact hpart.ne_nil

/-- There is only one way to decode some bytes. -/
theorem Decodes.unique {bytes : List UInt8} {codes codes' : List Nat} (h : Decodes bytes codes)
    (h' : Decodes bytes codes') : codes = codes' := by
  induction h generalizing codes' with
  | nil =>
    generalize hbytes : ([] : List UInt8) = bytes at h'
    cases h' with
    | nil => rfl
    | cons hfirst => exact absurd (List.append_eq_nil_iff.mp hbytes.symm).1 hfirst.ne_nil
  | @cons part rest code codes hfirst _ ih =>
    generalize hbytes : part ++ rest = bytes at h'
    cases h' with
    | nil => exact absurd (List.append_eq_nil_iff.mp hbytes).1 hfirst.ne_nil
    | cons hfirst' hrest' =>
      obtain ⟨-, rfl, rfl⟩ := hfirst.unique hfirst' hbytes
      rw [ih hrest']

end TapeTower.Text
