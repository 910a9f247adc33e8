import Mathlib.Logic.Function.Basic
import TapeTower.Proofs.Machine.Output
import TapeTower.Proofs.Machine.Transfer

/-!
# Programs that go from cell to cell

A program that works on many cells is followed more easily if the cells are given by a function
of their index, all at once: `m.lay i cell` is the machine `m` with these numbers in its cells and
its cursor on cell `i`. A move then changes `i` alone, and a change of the current cell updates
the function there (`carries_lay_right`, `carries_lay_increments` and their likes).

The loop `[.>]` prints a row of cells up to the first zero (`carries_printRow`).
-/

namespace TapeTower

namespace Tape

variable {t : Tape} {i : Nat} {cell : Nat → UInt32}

/-- The tape with the given numbers in its cells and its cursor on cell `i`. -/
def lay (i : Nat) (cell : Nat → UInt32) (t : Tape) : Tape where
  cells := t.cells.mapIdx fun index _ => cell index
  cursor := min i (t.cells.size - 1)
  cursor_lt := by
    have := t.cursor_lt
    rw [Array.size_mapIdx]
    omega

@[simp] lemma size_lay : (t.lay i cell).size = t.size := by
  simp [size, lay]

lemma cursor_lay (h : i < t.size) : (t.lay i cell).cursor = i := by
  have hcursor : (t.lay i cell).cursor = min i (t.size - 1) := rfl
  omega

lemma get?_lay (index : Nat) :
    (t.lay i cell).get? index = if index < t.size then some (cell index) else none := by
  simp only [get?, lay, Array.getElem?_mapIdx]
  split
  · next h => rw [Array.getElem?_eq_getElem h, Option.map_some]
  · next h => rw [Array.getElem?_eq_none (Nat.le_of_not_lt h), Option.map_none]

lemma current_lay (h : i < t.size) : (t.lay i cell).current = cell i := by
  apply current_eq_of_get?
  rw [cursor_lay h, get?_lay, if_pos h]

@[simp] lemma moveTo_lay (j : Nat) : (t.lay i cell).moveTo j = t.lay j cell := by
  simp [moveTo, lay]

lemma setCurrent_lay (h : i < t.size) (v : UInt32) :
    (t.lay i cell).setCurrent v = t.lay i (Function.update cell i v) := by
  refine ext_get? rfl fun index => ?_
  rw [get?_setCurrent, cursor_lay h, get?_lay, get?_lay]
  by_cases hindex : index = i
  · rw [if_pos hindex, hindex, if_pos h, Function.update_self]
  · rw [if_neg hindex, Function.update_of_ne hindex]

/-- A tape is known by its cursor and the numbers in its cells. -/
lemma lay_eq_self (hcursor : t.cursor = i)
    (hcell : ∀ index < t.size, t.get? index = some (cell index)) : t.lay i cell = t := by
  have hi : i < t.size := hcursor ▸ t.cursor_lt_size
  refine ext_get? ((cursor_lay hi).trans hcursor.symm) fun index => ?_
  rw [get?_lay]
  split
  · next h => rw [hcell index h]
  · next h => exact (Array.getElem?_eq_none (Nat.le_of_not_lt h)).symm

end Tape

namespace Machine

variable {m : Machine} {i : Nat} {cell : Nat → UInt32}

/-- The machine with the given numbers in its cells and its cursor on cell `i`. -/
def lay (i : Nat) (cell : Nat → UInt32) (m : Machine) : Machine :=
  { m with tape := m.tape.lay i cell }

@[simp] lemma size_lay : (m.lay i cell).tape.size = m.tape.size := Tape.size_lay

lemma cursor_lay (h : i < m.tape.size) : (m.lay i cell).tape.cursor = i := Tape.cursor_lay h

lemma current_lay (h : i < m.tape.size) : (m.lay i cell).tape.current = cell i :=
  Tape.current_lay h

lemma goTo_lay (j : Nat) : (m.lay i cell).goTo j = m.lay j cell := by
  simp [goTo, lay]

lemma store_lay (h : i < m.tape.size) (v : UInt32) :
    (m.lay i cell).store v = m.lay i (Function.update cell i v) := by
  simp [store, lay, Tape.setCurrent_lay h]

end Machine

open Machine Alpha

variable {m : Machine} {i n : Nat} {cell : Nat → UInt32}

/-! ### Moves and changes -/

/-- Repeated moves to the right change the cell that the cursor is on. -/
lemma carries_lay_right (h : i + n < m.tape.size) :
    Carries .free (List.replicate n '>') (m.lay i cell) (.ok (), m.lay (i + n) cell) := by
  have hcursor : (m.lay i cell).tape.cursor = i := cursor_lay (by omega)
  have hrun := carries_right (m := m.lay i cell) (n := n) (by rwa [hcursor, size_lay])
  rwa [hcursor, goTo_lay] at hrun

/-- Repeated moves to the left change the cell that the cursor is on. -/
lemma carries_lay_left (h : n ≤ i) (hi : i < m.tape.size) :
    Carries .free (List.replicate n '<') (m.lay i cell) (.ok (), m.lay (i - n) cell) := by
  have hrun := carries_left (m := m.lay i cell) (n := n) (by rwa [cursor_lay hi])
  rwa [cursor_lay hi, goTo_lay] at hrun

/-- Repeated increments add their number to the current cell. -/
lemma carries_lay_increments (hi : i < m.tape.size) (n : Nat) :
    Carries .free (List.replicate n '+') (m.lay i cell)
      (.ok (), m.lay i (Function.update cell i (cell i + UInt32.ofNat n))) := by
  have hrun := carries_increments n (m.lay i cell)
  rwa [current_lay hi, store_lay hi] at hrun

/-- Repeated decrements take their number off the current cell. -/
lemma carries_lay_decrements (hi : i < m.tape.size) (n : Nat) :
    Carries .free (List.replicate n '-') (m.lay i cell)
      (.ok (), m.lay i (Function.update cell i (cell i - UInt32.ofNat n))) := by
  have hrun := carries_decrements n (m.lay i cell)
  rwa [current_lay hi, store_lay hi] at hrun

/-! ### Printing a row of cells -/

/-- The machine with some more text put out. -/
def Machine.say (text : List Char) (m : Machine) : Machine :=
  { m with
    sink := { m.sink with written := m.sink.written ++ String.ofList text }
    printed := m.printed ++ String.ofList text }

lemma say_nil (m : Machine) : m.say [] = m := by
  simp [say]

lemma say_say (s t : List Char) (m : Machine) : (m.say s).say t = m.say (s ++ t) := by
  simp [say, String.append_assoc]

/-- A character is printed from its code. -/
lemma printedChar_toNat (c : Char) : printedChar (UInt32.ofNat c.toNat) = c := by
  have hcode : UInt32.ofNat c.toNat = c.val := UInt32.ofNat_toNat
  have hvalid : c.val.toNat.isValidChar := c.valid
  rw [printedChar, hcode, if_pos hvalid]
  exact Char.ofNat_toNat c

/-- Only the character zero has the code zero. -/
lemma ofNat_toNat_eq_zero_iff {c : Char} : UInt32.ofNat c.toNat = 0 ↔ c.toNat = 0 := by
  have hcode : UInt32.ofNat c.toNat = c.val := UInt32.ofNat_toNat
  rw [hcode, ← UInt32.toNat_inj]
  rfl

/-- The loop that prints the cells from the current one on, up to a zero. -/
def printText : List Char := loopText ['.', '>']

lemma balanced_printBody : Delimiters.loop.Balanced ['.', '>'] :=
  .symbol (by decide) (by decide) (.symbol (by decide) (by decide) .nil)

/-- Printing a cell puts its character out. -/
lemma carries_lay_print (hsink : m.sink.NeverFails) (hi : i < m.tape.size) {c : Char}
    (hc : cell i = UInt32.ofNat c.toNat) :
    Carries .free ['.'] (m.lay i cell) (.ok (), (m.say [c]).lay i cell) := by
  have hrun : Carries .free ['.'] (m.lay i cell) ((m.lay i cell).act '.') :=
    carries_singleton (by simp [IsPlain]) (not_clamps (by decide) (by decide) _)
  have hact : (m.lay i cell).act '.' = (.ok (), (m.lay i cell).emit) :=
    print_of_neverFails hsink
  have hemit : (m.lay i cell).emit = (m.say [c]).lay i cell := by
    have hchar : printedChar (m.lay i cell).tape.current = c := by
      rw [current_lay hi, hc, printedChar_toNat]
    rw [emit, hchar]
    simp [say, lay]
  rwa [hact, hemit] at hrun

/-- The characters of a text in front of the first one whose code is zero. -/
def beforeNul (text : List Char) : List Char := text.takeWhile fun c => c.toNat ≠ 0

lemma beforeNul_cons_of_eq {c : Char} (hc : c.toNat = 0) (text : List Char) :
    beforeNul (c :: text) = [] := by
  simp [beforeNul, hc]

lemma beforeNul_cons_of_ne {c : Char} (hc : c.toNat ≠ 0) (text : List Char) :
    beforeNul (c :: text) = c :: beforeNul text := by
  simp [beforeNul, hc]

lemma beforeNul_eq_self {text : List Char} (h : ∀ c ∈ text, c.toNat ≠ 0) :
    beforeNul text = text := by
  rw [beforeNul, List.takeWhile_eq_self_iff]
  simpa using h

/-- At a zero cell nothing is printed. -/
lemma carries_printText_zero (hi : i < m.tape.size) (hzero : cell i = 0) :
    Carries .free printText (m.lay i cell) (.ok (), m.lay i cell) := by
  have hcurrent : (m.lay i cell).tape.current = 0 := by rw [current_lay hi, hzero]
  exact carries_loop_skip balanced_printBody hcurrent (carries_nil _)

/-- A row of cells is printed up to its first zero. -/
theorem carries_printRow {text : List Char} (hsink : m.sink.NeverFails)
    (hend : i + text.length < m.tape.size)
    (hrow : ∀ k (h : k < text.length), cell (i + k) = UInt32.ofNat text[k].toNat)
    (hzero : cell (i + text.length) = 0) :
    Carries .free printText (m.lay i cell)
      (.ok (), (m.say (beforeNul text)).lay (i + (beforeNul text).length) cell) := by
  induction text generalizing m i with
  | nil =>
    have hrun : Carries .free printText (m.lay i cell) (.ok (), m.lay i cell) :=
      carries_printText_zero hend hzero
    simpa [beforeNul, say_nil] using hrun
  | cons c text ih =>
    rw [List.length_cons] at hend hzero
    have hi : i < m.tape.size := by omega
    have hc : cell i = UInt32.ofNat c.toNat := hrow 0 (by simp)
    by_cases hnul : c.toNat = 0
    · have hrun := carries_printText_zero (m := m) hi (hc.trans (ofNat_toNat_eq_zero_iff.mpr hnul))
      simpa [beforeNul_cons_of_eq hnul, say_nil] using hrun
    · have hne : (m.lay i cell).tape.current ≠ 0 := by
        rw [current_lay hi, hc]
        exact fun h => hnul (ofNat_toNat_eq_zero_iff.mp h)
      have hright : Carries .free ['>'] ((m.say [c]).lay i cell)
          (.ok (), (m.say [c]).lay (i + 1) cell) :=
        carries_lay_right (n := 1) (by have : (m.say [c]).tape.size = m.tape.size := rfl; omega)
      have hbody : Carries .free ['.', '>'] (m.lay i cell) (.ok (), (m.say [c]).lay (i + 1) cell) :=
        (carries_lay_print hsink hi hc).append hright
      have hrest : Carries .free printText ((m.say [c]).lay (i + 1) cell)
          (.ok (), ((m.say [c]).say (beforeNul text)).lay
            (i + 1 + (beforeNul text).length) cell) := by
        refine ih hsink ?_ ?_ ?_
        · have hsize : (m.say [c]).tape.size = m.tape.size := rfl
          omega
        · intro k hk
          have hcell := hrow (k + 1) (by simpa using hk)
          rwa [← Nat.add_assoc, Nat.add_right_comm] at hcell
        · rwa [← Nat.add_assoc, Nat.add_right_comm] at hzero
      rw [say_say, Nat.add_assoc, Nat.add_comm 1] at hrest
      rw [beforeNul_cons_of_ne hnul, List.length_cons]
      exact carries_loop_again balanced_printBody hne hbody hrest

end TapeTower
