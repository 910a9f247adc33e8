/-!
# Instructions

The eight instructions of the tape machine, each written as one character. Every
other character of a program is a comment.
-/

namespace TapeTower

/-- An instruction of the tape machine. -/
inductive Instruction where
  | increment
  | decrement
  | moveLeft
  | moveRight
  /-- Jumps past the end of the loop if the current cell is zero. -/
  | beginLoop
  /-- Jumps back to the beginning of the loop unless the current cell is zero. -/
  | endLoop
  /-- Reads one character into the current cell. -/
  | read
  /-- Prints the current cell as a character. -/
  | print
  deriving DecidableEq, Repr

namespace Instruction

/-- How an instruction is written. -/
def char : Instruction → Char
  | .increment => '+'
  | .decrement => '-'
  | .moveLeft => '<'
  | .moveRight => '>'
  | .beginLoop => '['
  | .endLoop => ']'
  | .read => ','
  | .print => '.'

/-- The instruction that a character stands for; a comment stands for none. -/
def ofChar? : Char → Option Instruction
  | '+' => some .increment
  | '-' => some .decrement
  | '<' => some .moveLeft
  | '>' => some .moveRight
  | '[' => some .beginLoop
  | ']' => some .endLoop
  | ',' => some .read
  | '.' => some .print
  | _ => none

@[simp] theorem ofChar?_char (i : Instruction) : ofChar? i.char = some i := by
  cases i <;> rfl

theorem eq_char_of_ofChar? {c : Char} {i : Instruction} (h : ofChar? c = some i) :
    c = i.char := by
  unfold ofChar? at h
  split at h <;> simp_all [char] <;> subst h <;> rfl

end Instruction

end TapeTower
