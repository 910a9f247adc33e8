import TapeTower.Fault

/-!
# Numerals

A numeral is a run of decimal digits of any length. Where it is too large for a
cell, its reading depends on its use: modulo `2 ^ 32`, capped, or not at all. Each
reading goes digit by digit and keeps within 32 bits as it goes, so that a numeral
of any length can be read.
-/

namespace TapeTower.Alpha

/-- A non-empty run of the digits `0` to `9`. -/
structure Numeral where
  digits : List Char
  digits_ne_nil : digits ≠ []
  isDigit_of_mem : ∀ c ∈ digits, c.isDigit
  deriving DecidableEq, Repr

/-- The largest number that a cell holds. -/
def largest : Nat := 0xFFFFFFFF

/-- The number that a digit stands for. -/
def digitValue (c : Char) : Nat := c.toNat - '0'.toNat

namespace Numeral

/-- The numeral with the given text, if it is one. -/
def ofText? (text : List Char) : Option Numeral :=
  if h : text ≠ [] ∧ text.all Char.isDigit then some ⟨text, h.1, List.all_eq_true.mp h.2⟩ else none

/-- The numeral `1`, which a missing argument stands for. -/
def one : Numeral where
  digits := ['1']
  digits_ne_nil := List.cons_ne_nil _ _
  isDigit_of_mem c h := by rw [List.mem_singleton.mp h]; rfl

/-- The number that a numeral writes. -/
def value (numeral : Numeral) : Nat :=
  Nat.ofDigitChars 10 numeral.digits 0

/-- The value modulo `2 ^ 32`. -/
def wrapping (numeral : Numeral) : UInt32 :=
  numeral.digits.foldl (fun sum c => sum * 10 + UInt32.ofNat (digitValue c)) 0

/-- The value, or the largest number of a cell if it is greater. -/
def saturating (numeral : Numeral) : UInt32 :=
  UInt32.ofNat (numeral.digits.foldl
    (fun sum c => min (min (sum * 10) largest + digitValue c) largest) 0)

/-- The value, if a cell can hold it. -/
def checked? (numeral : Numeral) : Option UInt32 :=
  (numeral.digits.foldlM
    (fun sum c =>
      let sum := sum * 10 + digitValue c
      if sum ≤ largest then some sum else none)
    0).map UInt32.ofNat

/-- The value, or the fault that no cell can hold it. -/
def exact (numeral : Numeral) : Except Fault UInt32 :=
  match numeral.checked? with
  | some value => .ok value
  | none => .error (.numeralOutOfRange (String.ofList numeral.digits))

end Numeral

end TapeTower.Alpha
