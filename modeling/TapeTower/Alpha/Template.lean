import TapeTower.Direction
import TapeTower.Fault

/-!
# Family templates

A family of commands carries the current cell over to a cell some distance away.
What a command does is written down as a template: a skeleton of program text in
which the distance is still open, and which may contain another family's command.
-/

namespace TapeTower

namespace Direction

/-- The other way. -/
def opposite : Direction → Direction
  | .forward => .backward
  | .backward => .forward

/-- The letter of a direction in a command. -/
def letter : Direction → Char
  | .forward => 'f'
  | .backward => 'b'

/-- The direction that a letter stands for. -/
def ofLetter? : Char → Option Direction
  | 'f' => some .forward
  | 'b' => some .backward
  | _ => none

/-- The instruction that moves the cursor one cell in a direction. -/
def moveChar : Direction → Char
  | .forward => '>'
  | .backward => '<'

end Direction

namespace Alpha

/-- What happens at the other cell. The current cell ends as zero in each case. -/
inductive Family where
  /-- The current cell is added to the other one. -/
  | add
  /-- The current cell is subtracted from the other one. -/
  | sub
  /-- The current cell replaces the other one. -/
  | move
  deriving DecidableEq, Repr

namespace Family

/-- The letter of a family in a command. -/
def letter : Family → Char
  | .add => 'a'
  | .sub => 's'
  | .move => 'm'

/-- The family that a letter stands for. -/
def ofLetter? : Char → Option Family
  | 'a' => some .add
  | 's' => some .sub
  | 'm' => some .move
  | _ => none

end Family

/-- A part of a template. -/
inductive Piece where
  /-- Program text that is taken as it is. -/
  | literal (text : List Char)
  /-- An instruction, repeated as often as the distance says. -/
  | repeated (instruction : Char)
  /-- A command over the same distance. -/
  | command (family : Family) (direction : Direction)
  deriving DecidableEq, Repr

/-- The skeleton of a command. -/
abbrev Template := List Piece

/-- A template for each family and direction. -/
abbrev TemplateTable := Family → Direction → Template

namespace Template

/-- The templates of the language. A move clears the other cell and then adds. -/
def standard : TemplateTable := fun family direction =>
  let go := direction.moveChar
  let back := direction.opposite.moveChar
  match family with
  | .add => [.literal ['[', '-'], .repeated go, .literal ['+'], .repeated back, .literal [']']]
  | .sub => [.literal ['[', '-'], .repeated go, .literal ['-'], .repeated back, .literal [']']]
  | .move => [.repeated go, .literal ['[', '-', ']'], .repeated back, .command .add direction]

/-- The text of a template, with `*` for the open distance. -/
def render (template : Template) : List Char :=
  template.flatMap fun
    | .literal text => text
    | .repeated instruction => [instruction, '*']
    | .command family direction => [family.letter, direction.letter, '*']

/-- The number of commands that one command may unfold into, itself included. -/
def maxExpansions : Nat := 64

/-- The program text of some pieces for a given distance. Commands among them are
replaced by their templates, as long as there is an allowance for it. -/
def unfold (table : TemplateTable) (distance : Nat) :
    (allowance : Nat) → (pieces : List Piece) → Except Fault (List Char)
  | _, [] => .ok []
  | allowance, .literal text :: pieces =>
    (unfold table distance allowance pieces).map (text ++ ·)
  | allowance, .repeated instruction :: pieces =>
    (unfold table distance allowance pieces).map (List.replicate distance instruction ++ ·)
  | 0, .command _ _ :: _ => .error (.noFixedPoint maxExpansions)
  | allowance + 1, .command family direction :: pieces =>
    unfold table distance allowance (table family direction ++ pieces)
termination_by allowance pieces => (allowance, pieces.length)

end Template

end Alpha

end TapeTower
