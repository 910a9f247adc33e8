/-!
# Programs that print a text

Two ways to turn a text into a program that prints it with a line end. Both fill a
row of cells with the codes of the characters and then print the cells up to the
first zero.
-/

namespace TapeTower.Encoder

/-- Some copies of one instruction. -/
def times (n : Nat) (instruction : Char) : List Char := List.replicate n instruction

/-! ### One increment per unit -/

/-- Fills one cell per character from cell 0 on, and one with the line end, unit by
unit, and then prints them. -/
def naive (text : List Char) : List Char :=
  text.flatMap (fun c => times c.toNat '+' ++ ['>']) ++ times 10 '+' ++
    times text.length '<' ++ ['[', '.', '>', ']']

/-! ### Ten units at a time -/

/-- A cell to be filled: where it is, and with what. -/
structure Target where
  index : Nat
  code : Nat
  deriving DecidableEq, Repr

/-- A number in tens, rounded to the nearest, and to the even one from the middle. -/
def tens (code : Nat) : Nat :=
  let quotient := code / 10
  let remainder := code % 10
  if remainder < 5 ∨ (remainder = 5 ∧ quotient % 2 = 0) then quotient else quotient + 1

/-- Visits the cells of some targets, which are in order of index, from the cell
`start` on, and returns to cell 0. -/
def visit (fill : Target → List Char) : (start : Nat) → List Target → List Char
  | start, [] => times start '<'
  | start, target :: targets =>
    times (target.index - start) '>' ++ fill target ++ visit fill target.index targets

/-- Fills targets whose codes are the same in tens, with cell 0 to count the tens:
each tens adds ten to every one of them, and then each is corrected. -/
def fillGroup (group : Nat) (targets : List Target) : List Char :=
  let correct (target : Target) : List Char :=
    if 10 * group < target.code then times (target.code - 10 * group) '+'
    else times (10 * group - target.code) '-'
  times group '+' ++ ['[', '>'] ++ visit (fun _ => times 10 '+') 1 targets ++ ['-', ']'] ++
    visit correct 0 targets

/-- The targets for a text from cell 1 on. A line end is added if the text does not
end with one. -/
def targets (text : List Char) : List Target :=
  let text := if text.getLast? = some '\n' then text else text ++ ['\n']
  text.mapIdx fun index c => ⟨index + 1, c.toNat⟩

/-- The targets in groups of the same tens, greater codes first. Within a group they
are in order of index. -/
def groups (targets : List Target) : List (List Target) :=
  let descending := targets.mergeSort fun s t => t.code ≤ s.code
  (descending.splitBy fun s t => tens s.code == tens t.code).map fun group =>
    group.mergeSort fun s t => s.index ≤ t.index

/-- Fills the cells from cell 1 on, group by group, and then prints them. Cell 0 is
zero again before. -/
def looped (text : List Char) : List Char :=
  ((groups (targets text)).flatMap fun
    | [] => []
    | target :: group => fillGroup (tens target.code) (target :: group)) ++
    ['>', '[', '.', '>', ']']

end TapeTower.Encoder
