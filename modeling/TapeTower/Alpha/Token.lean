import TapeTower.Alpha.Numeral
import TapeTower.Alpha.Template

/-!
# Tokens

A token is a verb with an argument. A source text gives the argument as a numeral
of any length; how often a verb acts is a number of 32 bits. `Verb.count` takes
the first to the second, `Token.render` writes the second down and
`Token.expand` is its meaning as program text.
-/

namespace TapeTower.Alpha

/-- What a token asks for. -/
inductive Verb where
  /-- An instruction of the tape machine, to be repeated. -/
  | instruction (char : Char)
  /-- The current cell is set to a number. -/
  | set
  /-- The current cell is carried over to another cell. -/
  | transfer (family : Family) (direction : Direction)
  deriving DecidableEq, Repr

/-- A verb and its argument. -/
structure Token (κ : Type) where
  verb : Verb
  argument : κ
  deriving DecidableEq, Repr

/-- The number that an argument stands for. Changes of a cell wrap, moves of the
cursor would be stopped by the end of the tape anyway, and all else has to be
exact. -/
def Verb.count (numeral : Numeral) : Verb → Except Fault UInt32
  | .instruction '+' => .ok numeral.wrapping
  | .instruction '-' => .ok numeral.wrapping
  | .instruction '>' => .ok numeral.saturating
  | .instruction '<' => .ok numeral.saturating
  | .instruction _ => numeral.exact
  | .set => .ok numeral.wrapping
  | .transfer _ _ => numeral.exact

namespace Token

/-- The text of a token. An instruction that acts once is written bare. -/
def render (token : Token UInt32) : List Char :=
  let digits := Nat.toDigits 10 token.argument.toNat
  match token.verb with
  | .instruction char => if token.argument = 1 then [char] else char :: digits
  | .set => '=' :: digits
  | .transfer family direction => family.letter :: direction.letter :: digits

/-- The command of a family over a signed distance: forward over a positive one and
backward otherwise. -/
def relative (family : Family) (distance : Int) : Except Fault (Token UInt32) :=
  if distance.natAbs ≤ largest then
    let direction := if 0 < distance then .forward else .backward
    .ok ⟨.transfer family direction, UInt32.ofNat distance.natAbs⟩
  else
    .error (.numeralOutOfRange (toString distance))

/-- The program text of a token. Carrying a cell over to itself has no meaning and
is left out. -/
def expand (table : TemplateTable) (token : Token UInt32) : Except Fault (List Char) :=
  let n := token.argument.toNat
  match token.verb with
  | .instruction char => .ok (List.replicate n char)
  | .set => .ok (['[', '-', ']'] ++ List.replicate n '+')
  | .transfer family direction =>
    if n = 0 then .ok []
    else Template.unfold table n Template.maxExpansions [.command family direction]

end Token

end TapeTower.Alpha
