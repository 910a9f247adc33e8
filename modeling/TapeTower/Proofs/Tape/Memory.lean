import TapeTower.Proofs.Tape

/-!
# Tapes in a memory of words

A tape carries the proof that its cursor is on a cell. Here this is not taken for granted: a
`Memory` is the bare cells with a cursor that may be any machine word, and its operations are
those of the memory itself. They read and write cells without a check of their own, so that they
fail if the cursor is on no cell, and they calculate in words, so that they fail if a difference
is negative. Sums of cursors stop at the largest word, and cells wrap.

None of the operations fails on the memory of a tape whose number of cells is a word, and each of
them does what the operation of the tape does (`Tape.safe`).
-/

namespace TapeTower

/-! ### Words -/

/-- The sum of two words, or the largest word if the sum is none. -/
def addSaturating (largest a b : Nat) : Nat := min (a + b) largest

/-- The difference of two words, or zero if it is negative. -/
def subSaturating (a b : Nat) : Nat := if a < b then 0 else a - b

/-- The difference of two words, which must not be negative. -/
def sub? (a b : Nat) : Option Nat := if a < b then none else some (a - b)

/-! ### Memories -/

/-- Cells and a cursor. Nothing but the operations keeps the cursor on a cell. -/
structure Memory where
  cells : Array UInt32
  cursor : Nat

namespace Memory

/-- Puts the cursor on a cell, or on the last one if there is no such cell. -/
def moveTo? (m : Memory) (index : Nat) : Option Memory :=
  (sub? m.cells.size 1).map fun last => { m with cursor := min index last }

/-- Moves the cursor to the right. -/
def moveRight? (largest : Nat) (m : Memory) (count : Nat) : Option Memory :=
  m.moveTo? (addSaturating largest m.cursor count)

/-- Moves the cursor to the left. -/
def moveLeft (m : Memory) (count : Nat) : Memory :=
  { m with cursor := subSaturating m.cursor count }

/-- The cell under the cursor. -/
def current? (m : Memory) : Option UInt32 := m.cells[m.cursor]?

/-- Stores a number in the cell under the cursor. -/
def setCurrent? (m : Memory) (value : UInt32) : Option Memory :=
  if h : m.cursor < m.cells.size then some { m with cells := m.cells.set m.cursor value h }
  else none

/-- Adds a number to the cell under the cursor. -/
def add? (m : Memory) (n : UInt32) : Option Memory :=
  m.current?.bind fun value => m.setCurrent? (value + n)

/-- Takes a number from the cell under the cursor. -/
def subtract? (m : Memory) (n : UInt32) : Option Memory :=
  m.current?.bind fun value => m.setCurrent? (value - n)

/-- Stores a number in a cell; without such a cell nothing changes. -/
def set (m : Memory) (index : Nat) (value : UInt32) : Memory :=
  { m with cells := m.cells.setIfInBounds index value }

/-- The index of the last cell that is not zero, or zero if there is none. -/
def lastNonzero (m : Memory) : Nat := (m.cells.toList.reverse.dropWhile (· = 0)).length - 1

/-- The cells up to and including the cursor and the last one that is not zero. The index behind
them has to be a word, and they have to be there. -/
def shown? (largest : Nat) (m : Memory) : Option (List UInt32) :=
  let last := max m.cursor m.lastNonzero
  if last < largest ∧ last < m.cells.size then some (m.cells.toList.take (last + 1)) else none

end Memory

/-! ### The memory of a tape -/

namespace Tape

/-- The cells and the cursor of a tape. -/
def memory (t : Tape) : Memory := ⟨t.cells, t.cursor⟩

/-- The tape has the given number of cells, or one if this is zero, and its cursor is on one of
them. Every operation stays within the cells of the memory and within the words up to `largest`,
and has the effect that it has on the tape. -/
structure Safe (largest size : Nat) (t : Tape) : Prop where
  size_eq : t.memory.cells.size = max size 1
  cursor_lt : t.memory.cursor < max size 1
  moveTo : ∀ index, t.memory.moveTo? index = some (t.moveTo index).memory
  moveRight : t.memory.moveRight? largest 1 = some t.moveRight.memory
  moveLeft : t.memory.moveLeft 1 = t.moveLeft.memory
  current : t.memory.current? = some t.current
  setCurrent : ∀ value, t.memory.setCurrent? value = some (t.setCurrent value).memory
  increment : t.memory.add? 1 = some t.increment.memory
  decrement : t.memory.subtract? 1 = some t.decrement.memory
  set : ∀ index value, t.memory.set index value = (t.set index value).memory
  shown : t.memory.shown? largest = some (t.cells.toList.take t.shownSize)

variable (t : Tape)

lemma moveTo?_memory (index : Nat) : t.memory.moveTo? index = some (t.moveTo index).memory := by
  have hlt := t.cursor_lt
  have hsub : sub? t.cells.size 1 = some (t.cells.size - 1) := if_neg (by omega)
  have hcells : t.memory.cells = t.cells := rfl
  rw [Memory.moveTo?, hcells, hsub]
  rfl

/-- A cursor at the largest word is past every cell, and the sum that stops there is as good as
the sum. -/
lemma moveRight?_memory {largest : Nat} (h : t.size ≤ largest) :
    t.memory.moveRight? largest 1 = some t.moveRight.memory := by
  have hlt := t.cursor_lt_size
  have hsum : addSaturating largest t.cursor 1 = t.cursor + 1 := by
    rw [addSaturating]
    omega
  have hcursor : t.memory.cursor = t.cursor := rfl
  rw [Memory.moveRight?, hcursor, hsum, moveTo?_memory, moveRight_eq]

lemma moveLeft_memory : t.memory.moveLeft 1 = t.moveLeft.memory := by
  have hcursor : subSaturating t.cursor 1 = t.cursor - 1 := by
    rw [subSaturating]
    split <;> omega
  exact congrArg (Memory.mk t.cells) hcursor

lemma current?_memory : t.memory.current? = some t.current := t.get?_cursor

lemma setCurrent?_memory (value : UInt32) :
    t.memory.setCurrent? value = some (t.setCurrent value).memory :=
  dif_pos t.cursor_lt

lemma shown?_memory {largest : Nat} (h : t.size ≤ largest) :
    t.memory.shown? largest = some (t.cells.toList.take t.shownSize) := by
  have hlt := t.cursor_lt_size
  have hnonzero : (t.cells.toList.reverse.dropWhile (· = 0)).length ≤ t.size := by
    have hsuffix := (List.dropWhile_suffix (l := t.cells.toList.reverse) (· = 0)).length_le
    simpa [size] using hsuffix
  have hlast : max t.cursor t.memory.lastNonzero + 1 = t.shownSize := by
    have hcells : t.memory.cells = t.cells := rfl
    rw [Memory.lastNonzero, shownSize, hcells]
    omega
  have hshown : t.shownSize ≤ t.size := by
    rw [shownSize]
    omega
  have hcursor : t.memory.cursor = t.cursor := rfl
  have hcells : t.memory.cells.size = t.size := rfl
  rw [Memory.shown?, hcursor, if_pos (by omega), hlast]
  rfl

/-- A tape is safe if its number of cells is a word. -/
theorem safe {largest size : Nat} (hsize : t.size = max size 1) (hword : max size 1 ≤ largest) :
    t.Safe largest size where
  size_eq := hsize
  cursor_lt := hsize ▸ t.cursor_lt_size
  moveTo := t.moveTo?_memory
  moveRight := t.moveRight?_memory (hsize ▸ hword)
  moveLeft := t.moveLeft_memory
  current := t.current?_memory
  setCurrent := t.setCurrent?_memory
  increment := by
    rw [Memory.add?, current?_memory]
    exact t.setCurrent?_memory _
  decrement := by
    rw [Memory.subtract?, current?_memory]
    exact t.setCurrent?_memory _
  set _ _ := rfl
  shown := t.shown?_memory (hsize ▸ hword)

end Tape

end TapeTower
