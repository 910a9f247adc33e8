import Mathlib.Data.List.Basic
import Mathlib.Tactic.Common
import TapeTower.Input.Character
import TapeTower.Proofs.Text.Lossy

/-!
# The forms of byte sequences

The reader knows UTF-8 from a table of ranges. Here the table is compared with the UTF-8
forms of the characters, in both directions: the bytes of a character above `0x7F` are a
sequence of a form of the table (`SequenceForm.exists_fits_utf8EncodeChar`), and a sequence of
a form is the UTF-8 form of the character whose code point it carries
(`SequenceForm.Fits.exists_utf8EncodeChar`). So some bytes begin a character exactly if they
are the first bytes of such a sequence (`beginsCharacter_cons_iff`), and what the reader finds
first is what is decoded first.
-/

namespace TapeTower

open String (utf8EncodeChar)

/-! ### UTF-8 in numbers

The UTF-8 form of a character, by the number of its bytes, and the character of some bytes. In
three or four bytes the second one is bounded by the first, or else the form is overlong, a
surrogate or too large. -/

lemma utf8EncodeChar_one {c : Char} (h : c.toNat < 0x80) :
    utf8EncodeChar c = [UInt8.ofNat c.toNat] := by
  have hval : c.val.toNat = c.toNat := rfl
  simp only [utf8EncodeChar, hval]
  rw [if_pos (by omega)]

lemma utf8EncodeChar_two {c : Char} (hlow : 0x80 ≤ c.toNat) (hhigh : c.toNat < 0x800) :
    utf8EncodeChar c =
      [UInt8.ofNat (c.toNat / 64 % 32 + 192), UInt8.ofNat (c.toNat % 64 + 128)] := by
  have hval : c.val.toNat = c.toNat := rfl
  simp only [utf8EncodeChar, hval]
  rw [if_neg (by omega), if_pos (by omega)]

lemma utf8EncodeChar_three {c : Char} (hlow : 0x800 ≤ c.toNat) (hhigh : c.toNat < 0x10000) :
    utf8EncodeChar c = [UInt8.ofNat (c.toNat / 4096 % 16 + 224),
      UInt8.ofNat (c.toNat / 64 % 64 + 128), UInt8.ofNat (c.toNat % 64 + 128)] := by
  have hval : c.val.toNat = c.toNat := rfl
  simp only [utf8EncodeChar, hval]
  rw [if_neg (by omega), if_neg (by omega), if_pos (by omega)]

lemma utf8EncodeChar_four {c : Char} (hlow : 0x10000 ≤ c.toNat) :
    utf8EncodeChar c = [UInt8.ofNat (c.toNat / 262144 % 8 + 240),
      UInt8.ofNat (c.toNat / 4096 % 64 + 128), UInt8.ofNat (c.toNat / 64 % 64 + 128),
      UInt8.ofNat (c.toNat % 64 + 128)] := by
  have hval : c.val.toNat = c.toNat := rfl
  simp only [utf8EncodeChar, hval]
  rw [if_neg (by omega), if_neg (by omega), if_neg (by omega)]

lemma exists_toNat_eq {code : Nat} (h : code.isValidChar) : ∃ c : Char, c.toNat = code :=
  ⟨Char.ofNatAux code h, rfl⟩

lemma ofNat_eq (value : UInt8) {n : Nat} (h : value.toNat = n) : UInt8.ofNat n = value := by
  rw [← h, UInt8.ofNat_toNat]

lemma exists_utf8EncodeChar_two {first second : UInt8}
    (hfirst : 0xC2 ≤ first.toNat ∧ first.toNat ≤ 0xDF)
    (hsecond : 0x80 ≤ second.toNat ∧ second.toNat ≤ 0xBF) {code : Nat}
    (hcode : code = first.toNat % 32 * 64 + second.toNat % 64) :
    ∃ c : Char, c.toNat = code ∧ utf8EncodeChar c = [first, second] := by
  have hvalid : code.isValidChar := Or.inl (by omega)
  obtain ⟨c, rfl⟩ := exists_toNat_eq hvalid
  refine ⟨c, rfl, ?_⟩
  rw [utf8EncodeChar_two (by omega) (by omega), ofNat_eq first (by omega),
    ofNat_eq second (by omega)]

lemma exists_utf8EncodeChar_three {first second third : UInt8}
    (hfirst : 0xE0 ≤ first.toNat ∧ first.toNat ≤ 0xEF)
    (hsecond : 0x80 ≤ second.toNat ∧ second.toNat ≤ 0xBF)
    (hoverlong : first.toNat = 0xE0 → 0xA0 ≤ second.toNat)
    (hsurrogate : first.toNat = 0xED → second.toNat ≤ 0x9F)
    (hthird : 0x80 ≤ third.toNat ∧ third.toNat ≤ 0xBF) {code : Nat}
    (hcode : code = (first.toNat % 16 * 64 + second.toNat % 64) * 64 + third.toNat % 64) :
    ∃ c : Char, c.toNat = code ∧ utf8EncodeChar c = [first, second, third] := by
  have hvalid : code.isValidChar := by unfold Nat.isValidChar; omega
  obtain ⟨c, rfl⟩ := exists_toNat_eq hvalid
  refine ⟨c, rfl, ?_⟩
  rw [utf8EncodeChar_three (by omega) (by omega), ofNat_eq first (by omega),
    ofNat_eq second (by omega), ofNat_eq third (by omega)]

lemma exists_utf8EncodeChar_four {first second third fourth : UInt8}
    (hfirst : 0xF0 ≤ first.toNat ∧ first.toNat ≤ 0xF4)
    (hsecond : 0x80 ≤ second.toNat ∧ second.toNat ≤ 0xBF)
    (hoverlong : first.toNat = 0xF0 → 0x90 ≤ second.toNat)
    (hbound : first.toNat = 0xF4 → second.toNat ≤ 0x8F)
    (hthird : 0x80 ≤ third.toNat ∧ third.toNat ≤ 0xBF)
    (hfourth : 0x80 ≤ fourth.toNat ∧ fourth.toNat ≤ 0xBF) {code : Nat}
    (hcode : code = ((first.toNat % 8 * 64 + second.toNat % 64) * 64 + third.toNat % 64) * 64 +
      fourth.toNat % 64) :
    ∃ c : Char, c.toNat = code ∧ utf8EncodeChar c = [first, second, third, fourth] := by
  have hvalid : code.isValidChar := by unfold Nat.isValidChar; omega
  obtain ⟨c, rfl⟩ := exists_toNat_eq hvalid
  refine ⟨c, rfl, ?_⟩
  rw [utf8EncodeChar_four (by omega), ofNat_eq first (by omega),
    ofNat_eq second (by omega), ofNat_eq third (by omega),
    ofNat_eq fourth (by omega)]

/-! ### Following bytes -/

/-- Bytes that may follow the first byte of a sequence: the next one is from `low` to `high`,
later ones are from `0x80` to `0xBF`. -/
def Follow (low high : UInt8) : List UInt8 → Prop
  | [] => True
  | value :: tail => (low ≤ value ∧ value ≤ high) ∧ Follow 0x80 0xBF tail

/-- The code point of a sequence whose first byte carries `code`. -/
def assemble (code : Nat) (tail : List UInt8) : Nat :=
  tail.foldl (fun code value => code * 64 + value.toNat % 64) code

lemma Follow.of_append {low high : UInt8} {s t : List UInt8} (h : Follow low high (s ++ t)) :
    Follow low high s := by
  induction s generalizing low high with
  | nil => trivial
  | cons value s ih => exact ⟨h.1, ih h.2⟩

/-- Bytes that may follow can be completed to any number of them. -/
lemma Follow.exists_append {low high : UInt8} (hrange : low ≤ high) {tail : List UInt8}
    (h : Follow low high tail) {following : Nat} (hlength : tail.length ≤ following) :
    ∃ more, Follow low high (tail ++ more) ∧ (tail ++ more).length = following := by
  induction following generalizing low high tail with
  | zero =>
    obtain rfl := List.eq_nil_of_length_eq_zero (Nat.le_zero.mp hlength)
    exact ⟨[], trivial, rfl⟩
  | succ following ih =>
    cases tail with
    | nil =>
      have hnil : Follow 0x80 0xBF [] := trivial
      obtain ⟨more, hmore, hlen⟩ := ih (by decide) hnil (Nat.zero_le following)
      refine ⟨low :: more, ⟨⟨UInt8.le_refl low, hrange⟩, hmore⟩, ?_⟩
      simpa using hlen
    | cons value tail =>
      obtain ⟨more, hmore, hlen⟩ := ih (by decide) h.2 (Nat.le_of_succ_le_succ hlength)
      refine ⟨more, ⟨h.1, hmore⟩, ?_⟩
      simpa using hlen

/-! ### The table -/

namespace SequenceForm

/-- A byte is the first one of a form exactly if it is in the range of the form. -/
lemma ofFirst?_eq_some_iff {first : UInt8} {form : SequenceForm} :
    ofFirst? first = some form ↔
      form ∈ sequenceForms ∧ form.first ≤ first ∧ first ≤ form.last := by
  constructor
  · intro h
    have hrange := List.find?_some h
    rw [Bool.and_eq_true, decide_eq_true_eq, decide_eq_true_eq] at hrange
    exact ⟨List.mem_of_find?_eq_some h, hrange⟩
  · have hall : ∀ n < 256, ∀ form ∈ sequenceForms, form.first ≤ UInt8.ofNat n →
        UInt8.ofNat n ≤ form.last → ofFirst? (UInt8.ofNat n) = some form := by
      decide +kernel
    rintro ⟨hmem, hfirst, hlast⟩
    have hbyte := hall first.toNat first.toNat_lt form hmem
    rw [UInt8.ofNat_toNat] at hbyte
    exact hbyte hfirst hlast

/-- The bytes `first :: tail` are a sequence of the form. -/
structure Fits (form : SequenceForm) (first : UInt8) (tail : List UInt8) : Prop where
  ofFirst?_eq : ofFirst? first = some form
  length_eq : tail.length = form.following
  follow : Follow form.low form.high tail

lemma following_cases : ∀ form ∈ sequenceForms,
    form.following = 1 ∨ form.following = 2 ∨ form.following = 3 := by
  decide

lemma low_le_high : ∀ form ∈ sequenceForms, form.low ≤ form.high := by
  decide

/-- The bounds of the sequences of two bytes. The ones of three and four bytes follow; there
the second byte has bounds of its own behind some first bytes. -/
lemma bounds_two : ∀ form ∈ sequenceForms, form.following = 1 →
    0xC2 ≤ form.first.toNat ∧ form.last.toNat ≤ 0xDF ∧
      0x80 ≤ form.low.toNat ∧ form.high.toNat ≤ 0xBF := by
  decide

lemma bounds_three : ∀ form ∈ sequenceForms, form.following = 2 →
    0xE0 ≤ form.first.toNat ∧ form.last.toNat ≤ 0xEF ∧
      0x80 ≤ form.low.toNat ∧ form.high.toNat ≤ 0xBF ∧
      (form.first.toNat ≤ 0xE0 → 0xA0 ≤ form.low.toNat) ∧
      (form.first.toNat ≤ 0xED → 0xED ≤ form.last.toNat → form.high.toNat ≤ 0x9F) := by
  decide

lemma bounds_four : ∀ form ∈ sequenceForms, form.following = 3 →
    0xF0 ≤ form.first.toNat ∧ form.last.toNat ≤ 0xF4 ∧
      0x80 ≤ form.low.toNat ∧ form.high.toNat ≤ 0xBF ∧
      (form.first.toNat ≤ 0xF0 → 0x90 ≤ form.low.toNat) ∧
      (0xF4 ≤ form.last.toNat → form.high.toNat ≤ 0x8F) := by
  decide

/-- A sequence of a form is the UTF-8 form of the character whose code point it carries. -/
lemma Fits.exists_utf8EncodeChar {form : SequenceForm} {first : UInt8} {tail : List UInt8}
    (h : form.Fits first tail) :
    ∃ c : Char, c.toNat = assemble (form.payload first) tail ∧
      utf8EncodeChar c = first :: tail := by
  obtain ⟨hform, hfirst, hlast⟩ := ofFirst?_eq_some_iff.mp h.ofFirst?_eq
  have hlength := h.length_eq
  have hfollow := h.follow
  rw [UInt8.le_iff_toNat_le] at hfirst hlast
  rcases following_cases form hform with hone | htwo | hthree
  · rw [hone] at hlength
    obtain ⟨second, rfl⟩ := List.length_eq_one_iff.mp hlength
    have hbounds := bounds_two form hform hone
    simp only [Follow, UInt8.le_iff_toNat_le] at hfollow
    refine exists_utf8EncodeChar_two (by omega) (by omega) ?_
    rw [payload, hone]
    rfl
  · rw [htwo] at hlength
    obtain ⟨second, third, rfl⟩ := List.length_eq_two.mp hlength
    have hbounds := bounds_three form hform htwo
    simp only [Follow, UInt8.le_iff_toNat_le] at hfollow
    refine exists_utf8EncodeChar_three (by omega) (by omega) (by omega) (by omega) hfollow.2.1 ?_
    rw [payload, htwo]
    rfl
  · rw [hthree] at hlength
    obtain ⟨second, third, fourth, rfl⟩ := List.length_eq_three.mp hlength
    have hbounds := bounds_four form hform hthree
    simp only [Follow, UInt8.le_iff_toNat_le] at hfollow
    refine exists_utf8EncodeChar_four (by omega) (by omega) (by omega) (by omega) hfollow.2.1
      hfollow.2.2.1 ?_
    rw [payload, hthree]
    rfl

/-- Whether bytes are a sequence of a form, in numbers. -/
lemma fits_ofNat {form : SequenceForm} (hform : form ∈ sequenceForms) {first second : Nat}
    {more : List UInt8} (hlength : more.length + 1 = form.following)
    (hfirst : form.first.toNat ≤ first ∧ first ≤ form.last.toNat)
    (hsecond : form.low.toNat ≤ second ∧ second ≤ form.high.toNat)
    (hmore : Follow 0x80 0xBF more) :
    form.Fits (UInt8.ofNat first) (UInt8.ofNat second :: more) := by
  have hsize : UInt8.size = 256 := rfl
  have hlast := form.last.toNat_lt
  have hhigh := form.high.toNat_lt
  refine ⟨ofFirst?_eq_some_iff.mpr ⟨hform, ?_⟩, hlength, ?_, hmore⟩
  · rwa [UInt8.le_iff_toNat_le, UInt8.le_iff_toNat_le, UInt8.toNat_ofNat_of_lt' (by omega)]
  · rwa [UInt8.le_iff_toNat_le, UInt8.le_iff_toNat_le, UInt8.toNat_ofNat_of_lt' (by omega)]

/-- The byte that carries the six last bits of a number may follow. -/
lemma follow_cons (n : Nat) {tail : List UInt8} (h : Follow 0x80 0xBF tail) :
    Follow 0x80 0xBF (UInt8.ofNat (n % 64 + 128) :: tail) := by
  have hsize : UInt8.size = 256 := rfl
  refine ⟨?_, h⟩
  rw [UInt8.le_iff_toNat_le, UInt8.le_iff_toNat_le, UInt8.toNat_ofNat_of_lt' (by omega)]
  change 128 ≤ n % 64 + 128 ∧ n % 64 + 128 ≤ 191
  omega

/-- The UTF-8 form of a character above `0x7F` is a sequence of a form. -/
lemma exists_fits_utf8EncodeChar {c : Char} (h : 0x80 ≤ c.toNat) :
    ∃ form first tail, Fits form first tail ∧ utf8EncodeChar c = first :: tail := by
  have hvalid : c.toNat < 0xD800 ∨ 0xDFFF < c.toNat ∧ c.toNat < 0x110000 := c.valid
  have hnil : Follow 0x80 0xBF [] := trivial
  by_cases htwo : c.toNat < 0x800
  · exact ⟨⟨0xC2, 0xDF, 1, 0x80, 0xBF⟩, _, _,
      fits_ofNat (by decide) rfl (by simp; omega) (by simp; omega) hnil, utf8EncodeChar_two h htwo⟩
  by_cases hthree : c.toNat < 0x10000
  · have henc := utf8EncodeChar_three (Nat.le_of_not_lt htwo) hthree
    have hmore := follow_cons c.toNat hnil
    -- the ranges of the table, in code points
    have hrange : c.toNat < 0x1000 ∨ (0x1000 ≤ c.toNat ∧ c.toNat < 0xD000) ∨
        (0xD000 ≤ c.toNat ∧ c.toNat < 0xD800) ∨ 0xE000 ≤ c.toNat := by
      omega
    rcases hrange with hrange | hrange | hrange | hrange
    · exact ⟨⟨0xE0, 0xE0, 2, 0xA0, 0xBF⟩, _, _,
        fits_ofNat (by decide) rfl (by simp; omega) (by simp; omega) hmore, henc⟩
    · exact ⟨⟨0xE1, 0xEC, 2, 0x80, 0xBF⟩, _, _,
        fits_ofNat (by decide) rfl (by simp; omega) (by simp; omega) hmore, henc⟩
    · exact ⟨⟨0xED, 0xED, 2, 0x80, 0x9F⟩, _, _,
        fits_ofNat (by decide) rfl (by simp; omega) (by simp; omega) hmore, henc⟩
    · exact ⟨⟨0xEE, 0xEF, 2, 0x80, 0xBF⟩, _, _,
        fits_ofNat (by decide) rfl (by simp; omega) (by simp; omega) hmore, henc⟩
  · have henc := utf8EncodeChar_four (Nat.le_of_not_lt hthree)
    have hmore := follow_cons (c.toNat / 64) (follow_cons c.toNat hnil)
    have hrange : c.toNat < 0x40000 ∨ (0x40000 ≤ c.toNat ∧ c.toNat < 0x100000) ∨
        0x100000 ≤ c.toNat := by
      omega
    rcases hrange with hrange | hrange | hrange
    · exact ⟨⟨0xF0, 0xF0, 3, 0x90, 0xBF⟩, _, _,
        fits_ofNat (by decide) rfl (by simp; omega) (by simp; omega) hmore, henc⟩
    · exact ⟨⟨0xF1, 0xF3, 3, 0x80, 0xBF⟩, _, _,
        fits_ofNat (by decide) rfl (by simp; omega) (by simp; omega) hmore, henc⟩
    · exact ⟨⟨0xF4, 0xF4, 3, 0x80, 0x8F⟩, _, _,
        fits_ofNat (by decide) rfl (by simp; omega) (by simp; omega) hmore, henc⟩

end SequenceForm

/-! ### What bytes begin a character -/

lemma exists_char_of_lt {first : UInt8} (h : first < 0x80) :
    ∃ c : Char, c.toNat = first.toNat ∧ utf8EncodeChar c = [first] := by
  rw [UInt8.lt_iff_toNat_lt] at h
  change first.toNat < 128 at h
  have hvalid : first.toNat.isValidChar := Or.inl (by omega)
  obtain ⟨c, hc⟩ := exists_toNat_eq hvalid
  refine ⟨c, hc, ?_⟩
  rw [utf8EncodeChar_one (by omega), hc, UInt8.ofNat_toNat]

/-- A character whose UTF-8 form starts with a byte above `0x7F` is above `0x7F` itself. -/
lemma le_toNat_of_utf8EncodeChar_eq {c : Char} {first : UInt8} {tail : List UInt8}
    (h : utf8EncodeChar c = first :: tail) (hfirst : ¬ first < 0x80) : 0x80 ≤ c.toNat := by
  by_contra hlt
  rw [utf8EncodeChar_one (by omega), List.cons.injEq] at h
  apply hfirst
  have hsize : UInt8.size = 256 := rfl
  rw [← h.1, UInt8.lt_iff_toNat_lt, UInt8.toNat_ofNat_of_lt' (by omega)]
  change c.toNat < 128
  omega

/-- The bytes that begin a character are the first ones of a sequence of a form. -/
lemma beginsCharacter_cons_iff {first : UInt8} (hfirst : ¬ first < 0x80) {tail : List UInt8} :
    Text.BeginsCharacter (first :: tail) ↔ ∃ form, SequenceForm.ofFirst? first = some form ∧
      tail.length ≤ form.following ∧ Follow form.low form.high tail := by
  constructor
  · rintro ⟨c, more, henc⟩
    rw [List.cons_append] at henc
    have hc := le_toNat_of_utf8EncodeChar_eq henc.symm hfirst
    obtain ⟨form, first', tail', hfits, henc'⟩ := SequenceForm.exists_fits_utf8EncodeChar hc
    obtain ⟨rfl, rfl⟩ := List.cons.inj (henc.trans henc')
    have hlength := hfits.length_eq
    rw [List.length_append] at hlength
    exact ⟨form, hfits.ofFirst?_eq, by omega, hfits.follow.of_append⟩
  · rintro ⟨form, hform, hlength, hfollow⟩
    have hrange := SequenceForm.low_le_high form (SequenceForm.ofFirst?_eq_some_iff.mp hform).1
    obtain ⟨more, hmore, hmoreLength⟩ := hfollow.exists_append hrange hlength
    obtain ⟨c, -, henc⟩ := SequenceForm.Fits.exists_utf8EncodeChar ⟨hform, hmoreLength, hmore⟩
    exact ⟨c, more, henc.symm⟩

/-! ### What is decoded first -/

/-- Of some bytes, `part` is the longest piece in front of `rest` that may follow. -/
structure IsLongestFollow (low high : UInt8) (part rest : List UInt8) : Prop where
  follow : Follow low high part
  longest : ∀ longer, longer <+: part ++ rest → Follow low high longer →
    longer.length ≤ part.length

lemma isLongestFollow_nil (low high : UInt8) : IsLongestFollow low high [] [] where
  follow := trivial
  longest _ hprefix _ := hprefix.length_le

lemma isLongestFollow_nil_cons {low high value : UInt8} (h : ¬ (low ≤ value ∧ value ≤ high))
    (rest : List UInt8) : IsLongestFollow low high [] (value :: rest) where
  follow := trivial
  longest longer hprefix hfollow := by
    rcases List.prefix_cons_iff.mp hprefix with rfl | ⟨tail, rfl, -⟩
    · exact Nat.le_refl 0
    · exact absurd hfollow.1 h

lemma IsLongestFollow.cons {low high value : UInt8} (hvalue : low ≤ value ∧ value ≤ high)
    {part rest : List UInt8} (h : IsLongestFollow 0x80 0xBF part rest) :
    IsLongestFollow low high (value :: part) rest where
  follow := ⟨hvalue, h.follow⟩
  longest longer hprefix hfollow := by
    rcases List.prefix_cons_iff.mp hprefix with rfl | ⟨tail, rfl, htail⟩
    · exact Nat.zero_le _
    · exact Nat.succ_le_succ (h.longest tail htail hfollow.2)

lemma decodesFirst_of_lt {first : UInt8} (h : first < 0x80) (rest : List UInt8) :
    Text.DecodesFirst [first] rest first.toNat := by
  obtain ⟨c, hc, henc⟩ := exists_char_of_lt h
  rw [← hc]
  exact .character c henc.symm

lemma SequenceForm.Fits.decodesFirst {form : SequenceForm} {first : UInt8} {tail : List UInt8}
    (h : form.Fits first tail) (rest : List UInt8) :
    Text.DecodesFirst (first :: tail) rest (assemble (form.payload first) tail) := by
  obtain ⟨c, hc, henc⟩ := h.exists_utf8EncodeChar
  rw [← hc]
  exact .character c henc.symm

/-- Where no character stands and nothing longer begins one, there is a maximal subpart. -/
lemma isMaximalSubpart_cons {first : UInt8} {part rest : List UInt8}
    (hillFormed : ∀ c tail, utf8EncodeChar c = first :: tail → ¬ tail <+: part ++ rest)
    (hbegins : Text.BeginsCharacter (first :: part) ∨ part = [])
    (hmaximal : ∀ tail, tail <+: part ++ rest → Text.BeginsCharacter (first :: tail) →
      tail.length ≤ part.length) :
    Text.IsMaximalSubpart (first :: part) rest where
  ne_nil := List.cons_ne_nil _ _
  illFormed c hprefix := by
    rcases List.prefix_cons_iff.mp hprefix with hnil | ⟨tail, henc, htail⟩
    · exact String.utf8EncodeChar_ne_nil hnil
    · exact hillFormed c tail henc htail
  begins := hbegins.imp_right fun hpart => by rw [hpart, List.length_singleton]
  maximal longer hprefix hlonger := by
    rcases List.prefix_cons_iff.mp hprefix with rfl | ⟨tail, rfl, htail⟩
    · exact Nat.zero_le _
    · exact Nat.succ_le_succ (hmaximal tail htail hlonger)

/-- A byte that no form starts with is a maximal subpart of its own. -/
lemma isMaximalSubpart_of_ofFirst?_eq_none {first : UInt8} (hfirst : ¬ first < 0x80)
    (hform : SequenceForm.ofFirst? first = none) (rest : List UInt8) :
    Text.IsMaximalSubpart [first] rest := by
  have hnone : ∀ tail, ¬ Text.BeginsCharacter (first :: tail) := by
    intro tail htail
    obtain ⟨form, hsome, -⟩ := (beginsCharacter_cons_iff hfirst).mp htail
    rw [hform] at hsome
    contradiction
  refine isMaximalSubpart_cons ?_ (Or.inr rfl) ?_
  · intro c tail henc _
    exact hnone tail ⟨c, henc ▸ List.prefix_rfl⟩
  · intro tail _ hbegins
    exact absurd hbegins (hnone tail)

/-- A sequence that stops too early is a maximal subpart. -/
lemma IsLongestFollow.isMaximalSubpart {first : UInt8} (hfirst : ¬ first < 0x80)
    {form : SequenceForm} (hform : SequenceForm.ofFirst? first = some form)
    {part rest : List UInt8} (h : IsLongestFollow form.low form.high part rest)
    (hlength : part.length < form.following) : Text.IsMaximalSubpart (first :: part) rest := by
  refine isMaximalSubpart_cons ?_ (Or.inl ?_) ?_
  · intro c tail henc htail
    have hc := le_toNat_of_utf8EncodeChar_eq henc hfirst
    obtain ⟨form', first', tail', hfits, henc'⟩ := SequenceForm.exists_fits_utf8EncodeChar hc
    obtain ⟨rfl, rfl⟩ := List.cons.inj (henc.symm.trans henc')
    obtain rfl := Option.some.inj (hform.symm.trans hfits.ofFirst?_eq)
    have hle := h.longest tail htail hfits.follow
    rw [hfits.length_eq] at hle
    omega
  · exact (beginsCharacter_cons_iff hfirst).mpr ⟨form, hform, Nat.le_of_lt hlength, h.follow⟩
  · intro tail htail hbegins
    obtain ⟨form', hform', -, hfollow⟩ := (beginsCharacter_cons_iff hfirst).mp hbegins
    obtain rfl := Option.some.inj (hform.symm.trans hform')
    exact h.longest tail htail hfollow

end TapeTower
