/-!
# Tapes

A tape is a row of cells, each holding a number below `2 ^ 32`, with a cursor on
one of them. Cell arithmetic wraps. The cursor never leaves the tape: a move past
either end stays on the last cell there.
-/

namespace TapeTower

/-- Cells hold numbers below this one, and their arithmetic wraps at it. -/
def cellModulus : Nat := 0x100000000

/-- A row of cells with a cursor on one of them. -/
structure Tape where
  cells : Array UInt32
  cursor : Nat
  cursor_lt : cursor < cells.size

namespace Tape

/-- The number of cells of a tape whose size is not asked for. -/
def defaultSize : Nat := 30000

/-- A tape of zeros with the cursor on its first cell. It has at least one cell. -/
def blank (size : Nat) : Tape where
  cells := Array.replicate (max size 1) 0
  cursor := 0
  cursor_lt := by simp only [Array.size_replicate]; omega

/-- The number of cells. -/
def size (tape : Tape) : Nat := tape.cells.size

theorem size_pos (tape : Tape) : 0 < tape.size :=
  Nat.lt_of_le_of_lt (Nat.zero_le _) tape.cursor_lt

/-! ### The cursor -/

/-- Puts the cursor on cell `index`, or on the last cell if there is no such cell. -/
def moveTo (tape : Tape) (index : Nat) : Tape where
  cells := tape.cells
  cursor := min index (tape.cells.size - 1)
  cursor_lt := by have := tape.cursor_lt; omega

/-- Moves the cursor one cell right, unless it is on the last cell. -/
def moveRight (tape : Tape) : Tape :=
  if h : tape.cursor + 1 < tape.cells.size then
    { tape with cursor := tape.cursor + 1, cursor_lt := h }
  else
    tape

/-- Moves the cursor one cell left, unless it is on the first cell. -/
def moveLeft (tape : Tape) : Tape :=
  { tape with
    cursor := tape.cursor - 1
    cursor_lt := Nat.lt_of_le_of_lt (Nat.sub_le _ _) tape.cursor_lt }

/-! ### The cells -/

/-- The number in cell `index`, if there is such a cell. -/
def get? (tape : Tape) (index : Nat) : Option UInt32 := tape.cells[index]?

/-- Stores a number in cell `index`; without such a cell nothing changes. -/
def set (tape : Tape) (index : Nat) (value : UInt32) : Tape where
  cells := tape.cells.setIfInBounds index value
  cursor := tape.cursor
  cursor_lt := by rw [Array.size_setIfInBounds]; exact tape.cursor_lt

/-- The number in the cell under the cursor. -/
def current : Tape → UInt32
  | ⟨cells, cursor, _⟩ => cells[cursor]

/-- Stores a number in the cell under the cursor. -/
def setCurrent (tape : Tape) (value : UInt32) : Tape where
  cells := tape.cells.set tape.cursor value tape.cursor_lt
  cursor := tape.cursor
  cursor_lt := by rw [Array.size_set]; exact tape.cursor_lt

/-- Adds one to the cell under the cursor. -/
def increment (tape : Tape) : Tape := tape.setCurrent (tape.current + 1)

/-- Takes one from the cell under the cursor. -/
def decrement (tape : Tape) : Tape := tape.setCurrent (tape.current - 1)

/-! ### Showing a tape -/

/-- The number of cells that are shown: up to the cursor and to the last cell
that is not zero. -/
def shownSize (tape : Tape) : Nat :=
  max (tape.cursor + 1) (tape.cells.toList.reverse.dropWhile (· = 0)).length

/-- The decimal text of one cell, between stars if the cursor is on it. -/
def showCell (tape : Tape) (index : Nat) (value : UInt32) : List Char :=
  let digits := Nat.toDigits 10 value.toNat
  if index = tape.cursor then '*' :: digits ++ ['*'] else digits

/-- The shown cells, one blank apart, with the cursor's cell between stars:
`1 *0* 3`. -/
def render (tape : Tape) : List Char :=
  [' '].intercalate ((tape.cells.toList.take tape.shownSize).mapIdx tape.showCell)

end Tape

end TapeTower
