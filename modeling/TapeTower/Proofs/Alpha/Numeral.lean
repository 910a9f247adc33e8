import Mathlib.Data.Nat.Digits.Defs
import Mathlib.Tactic.Ring
import TapeTower.Alpha.Numeral
import TapeTower.Tape

/-!
# Values of numerals

Each reading of a numeral goes digit by digit and keeps within a cell. Read to its end,
it gives what its name says about the whole value: `wrapping_eq`, `saturating_eq` and
`checked?_eq`. The digits of a number are a numeral with this number as its value
(`value_ofNat`).

A text is a numeral if it consists of digits, and its value is the sum of the digits by their
places (`value_eq_ofDigits`). What the readings make of it follows for every text
(`ofText?_readings`).
-/

namespace TapeTower.Alpha

/-! ### Digits -/

lemma ofDigitChars_cons (c : Char) (digits : List Char) (sum : Nat) :
    Nat.ofDigitChars 10 (c :: digits) sum =
      Nat.ofDigitChars 10 digits (10 * sum + digitValue c) :=
  Nat.ofDigitChars_cons

/-- Further digits make no number smaller. -/
lemma le_ofDigitChars (digits : List Char) (sum : Nat) :
    sum ≤ Nat.ofDigitChars 10 digits sum := by
  induction digits generalizing sum with
  | nil => exact Nat.le_refl sum
  | cons c digits ih =>
    rw [ofDigitChars_cons]
    have := ih (10 * sum + digitValue c)
    omega

/-- Read from the left, digits give their sum by the place at which each of them stands. -/
lemma ofDigitChars_eq_add_ofDigits (digits : List Char) (sum : Nat) :
    Nat.ofDigitChars 10 digits sum =
      sum * 10 ^ digits.length + Nat.ofDigits 10 (digits.map digitValue).reverse := by
  induction digits generalizing sum with
  | nil => simp
  | cons c digits ih =>
    rw [ofDigitChars_cons, ih, List.map_cons, List.reverse_cons, Nat.ofDigits_append,
      List.length_reverse, List.length_map, Nat.ofDigits_singleton, List.length_cons]
    ring

/-- Digits that are read modulo `2 ^ 32` give the value modulo `2 ^ 32`. -/
lemma foldl_wrapping (digits : List Char) (sum : Nat) :
    digits.foldl (fun sum c => sum * 10 + UInt32.ofNat (digitValue c)) (UInt32.ofNat sum) =
      UInt32.ofNat (Nat.ofDigitChars 10 digits sum) := by
  induction digits generalizing sum with
  | nil => rfl
  | cons c digits ih =>
    rw [List.foldl_cons, ofDigitChars_cons, ← ih, UInt32.ofNat_add, UInt32.ofNat_mul,
      UInt32.mul_comm]
    rfl

/-- Digits that are read with a cap give the value with the cap. -/
lemma foldl_saturating (digits : List Char) (sum : Nat) :
    digits.foldl (fun sum c => min (min (sum * 10) largest + digitValue c) largest)
      (min sum largest) = min (Nat.ofDigitChars 10 digits sum) largest := by
  induction digits generalizing sum with
  | nil => rfl
  | cons c digits ih =>
    have hstep : min (min (min sum largest * 10) largest + digitValue c) largest =
        min (10 * sum + digitValue c) largest := by omega
    rw [List.foldl_cons, ofDigitChars_cons, hstep, ih]

/-- Digits that are read as long as a cell can hold them give the value if a cell can hold
it. -/
lemma foldlM_checked (digits : List Char) {sum : Nat} (hsum : sum ≤ largest) :
    digits.foldlM (fun sum c =>
        let sum := sum * 10 + digitValue c
        if sum ≤ largest then some sum else none) sum =
      if Nat.ofDigitChars 10 digits sum ≤ largest then some (Nat.ofDigitChars 10 digits sum)
      else none := by
  induction digits generalizing sum with
  | nil => simp [hsum]
  | cons c digits ih =>
    rw [List.foldlM_cons, ofDigitChars_cons, Nat.mul_comm 10]
    by_cases hstep : sum * 10 + digitValue c ≤ largest
    · rw [← ih hstep]
      simp [hstep]
    · have hle := le_ofDigitChars digits (sum * 10 + digitValue c)
      have hlarge : ¬ Nat.ofDigitChars 10 digits (sum * 10 + digitValue c) ≤ largest := by omega
      simp [hstep, hlarge]

/-- A number that a cell can hold is stored as it is. -/
lemma toNat_ofNat_of_le_largest {n : Nat} (h : n ≤ largest) : (UInt32.ofNat n).toNat = n :=
  UInt32.toNat_ofNat_of_lt' (Nat.lt_succ_of_le h)

namespace Numeral

/-! ### The three readings -/

/-- The value of a numeral modulo `2 ^ 32`. -/
theorem wrapping_eq (numeral : Numeral) : numeral.wrapping = UInt32.ofNat numeral.value :=
  foldl_wrapping numeral.digits 0

lemma toNat_wrapping (numeral : Numeral) :
    numeral.wrapping.toNat = numeral.value % cellModulus := by
  rw [wrapping_eq, UInt32.toNat_ofNat']
  rfl

/-- The value of a numeral, capped at the largest number of a cell. -/
theorem saturating_eq (numeral : Numeral) :
    numeral.saturating = UInt32.ofNat (min numeral.value largest) :=
  congrArg UInt32.ofNat (foldl_saturating numeral.digits 0)

/-- The value of a numeral, if a cell can hold it. -/
theorem checked?_eq (numeral : Numeral) :
    numeral.checked? =
      if numeral.value ≤ largest then some (UInt32.ofNat numeral.value) else none := by
  rw [checked?, foldlM_checked numeral.digits (Nat.zero_le largest)]
  by_cases h : numeral.value ≤ largest
  · rw [if_pos h]
    unfold value at h ⊢
    rw [if_pos h, Option.map_some]
  · rw [if_neg h]
    unfold value at h
    rw [if_neg h, Option.map_none]

/-- The value of a numeral that a cell can hold. -/
lemma exact_of_le {numeral : Numeral} (h : numeral.value ≤ largest) :
    numeral.exact = .ok (UInt32.ofNat numeral.value) := by
  rw [exact, checked?_eq, if_pos h]

/-- The fault of a numeral that no cell can hold. -/
lemma exact_of_lt {numeral : Numeral} (h : largest < numeral.value) :
    numeral.exact = .error (.numeralOutOfRange (String.ofList numeral.digits)) := by
  rw [exact, checked?_eq, if_neg (Nat.not_le.mpr h)]

/-! ### The numeral of a number -/

/-- The decimal digits of a number. -/
def ofNat (n : Nat) : Numeral where
  digits := Nat.toDigits 10 n
  digits_ne_nil := Nat.toDigits_ne_nil
  isDigit_of_mem _ h := Nat.isDigit_of_mem_toDigits (by decide) (by decide) h

@[simp] theorem value_ofNat (n : Nat) : (ofNat n).value = n :=
  Nat.ofDigitChars_ten_toDigits

lemma ofNat_one : ofNat 1 = one := rfl

/-- The text of a numeral is read as the numeral. -/
lemma ofText?_digits (numeral : Numeral) : ofText? numeral.digits = some numeral := by
  unfold ofText?
  rw [dif_pos ⟨numeral.digits_ne_nil, List.all_eq_true.mpr numeral.isDigit_of_mem⟩]

lemma toNat_lt_largest (n : UInt32) : n.toNat ≤ largest :=
  Nat.le_pred_of_lt n.toNat_lt

/-- All readings agree on the numeral of a number that a cell can hold. -/
lemma wrapping_ofNat (n : UInt32) : (ofNat n.toNat).wrapping = n := by
  rw [wrapping_eq, value_ofNat, UInt32.ofNat_toNat]

lemma saturating_ofNat (n : UInt32) : (ofNat n.toNat).saturating = n := by
  rw [saturating_eq, value_ofNat, Nat.min_eq_left (toNat_lt_largest n), UInt32.ofNat_toNat]

lemma exact_ofNat (n : UInt32) : (ofNat n.toNat).exact = .ok n := by
  rw [exact_of_le (by simpa using toNat_lt_largest n), value_ofNat, UInt32.ofNat_toNat]

/-! ### Texts of numerals -/

/-- The value of a numeral counts each digit by its place. -/
lemma value_eq_ofDigits (numeral : Numeral) :
    numeral.value = Nat.ofDigits 10 (numeral.digits.map digitValue).reverse := by
  rw [value, ofDigitChars_eq_add_ofDigits, Nat.zero_mul, Nat.zero_add]

lemma ofText?_eq_some_iff {text : List Char} {numeral : Numeral} :
    ofText? text = some numeral ↔ numeral.digits = text := by
  constructor
  · intro h
    unfold ofText? at h
    split at h
    · cases h
      rfl
    · cases h
  · rintro rfl
    exact ofText?_digits numeral

lemma exists_ofText?_iff {text : List Char} :
    (∃ numeral, ofText? text = some numeral) ↔ text ≠ [] ∧ ∀ c ∈ text, '0' ≤ c ∧ c ≤ '9' := by
  have hdigit : ∀ c : Char, c.isDigit ↔ '0' ≤ c ∧ c ≤ '9' := by
    intro c
    simp [Char.isDigit, Char.le_def]
  simp only [ofText?_eq_some_iff, ← hdigit]
  constructor
  · rintro ⟨numeral, rfl⟩
    exact ⟨numeral.digits_ne_nil, numeral.isDigit_of_mem⟩
  · rintro ⟨hnil, hdigits⟩
    exact ⟨⟨text, hnil, hdigits⟩, rfl⟩

/-- A text is a numeral if it is not empty and its characters are ASCII digits. Whatever its
length, it is read modulo `2 ^ 32`, capped at the largest number of 32 bits, or exactly, and the
last of these fails if 32 bits cannot hold the number. -/
theorem ofText?_readings (text : List Char) :
    ((∃ numeral, ofText? text = some numeral) ↔ text ≠ [] ∧ ∀ c ∈ text, '0' ≤ c ∧ c ≤ '9') ∧
    ∀ numeral value, ofText? text = some numeral →
      value = Nat.ofDigits 10 (text.map digitValue).reverse →
      numeral.wrapping.toNat = value % 2 ^ 32 ∧
      numeral.saturating.toNat = min value (2 ^ 32 - 1) ∧
      (value < 2 ^ 32 → ∃ word, numeral.exact = .ok word ∧ word.toNat = value) ∧
      (2 ^ 32 ≤ value → numeral.exact = .error (.numeralOutOfRange (String.ofList text))) := by
  refine ⟨exists_ofText?_iff, fun numeral value htext hvalue => ?_⟩
  obtain rfl := ofText?_eq_some_iff.mp htext
  rw [← value_eq_ofDigits] at hvalue
  subst hvalue
  refine ⟨toNat_wrapping numeral, ?_, fun hsmall => ?_, exact_of_lt⟩
  · rw [saturating_eq, toNat_ofNat_of_le_largest (Nat.min_le_right _ _)]
    rfl
  · have hle : numeral.value ≤ largest := Nat.le_of_lt_succ hsmall
    exact ⟨_, exact_of_le hle, toNat_ofNat_of_le_largest hle⟩

/-- A number beyond 32 bits, with zeros in front of it. -/
theorem ofText?_readings_zeros :
    ∃ numeral, ofText? "0004294967301".toList = some numeral ∧
      (4294967301 : Nat) = Nat.ofDigits 10 ("0004294967301".toList.map digitValue).reverse ∧
      numeral.wrapping.toNat = 5 ∧ numeral.saturating.toNat = 4294967295 ∧
      numeral.exact = .error (.numeralOutOfRange "0004294967301") := by
  obtain ⟨haccepts, hreadings⟩ := ofText?_readings "0004294967301".toList
  obtain ⟨numeral, htext⟩ := haccepts.mpr ⟨by simp, by simp⟩
  have hvalue : (4294967301 : Nat) =
      Nat.ofDigits 10 ("0004294967301".toList.map digitValue).reverse := by decide
  obtain ⟨hwrapping, hsaturating, -, hexact⟩ := hreadings numeral 4294967301 htext hvalue
  exact ⟨numeral, htext, hvalue, hwrapping, hsaturating, hexact (by decide)⟩

end Numeral

end TapeTower.Alpha
