import TapeTower.Fault

/-!
# Input

Input arrives as a queue of deliveries. How its bytes are divided into chunks
carries no meaning, and neither do interruptions; a failure of the source is met
once, by whoever asks for the byte after it.
-/

namespace TapeTower

/-- What the source of the input hands over at a time. -/
inductive Delivery where
  /-- Some bytes, possibly none. -/
  | chunk (bytes : List UInt8)
  /-- The source fails once, saying why. -/
  | failure (message : String)
  /-- The source is interrupted and has to be asked again. -/
  | interruption
  deriving DecidableEq, Repr

/-- The deliveries that are still to be taken, next one first. -/
abbrev Input := List Delivery

namespace Input

/-- What one finds on asking an input for its next byte. -/
inductive Next where
  /-- A byte; taking it leaves `rest`. -/
  | byte (value : UInt8) (rest : Input)
  /-- The source fails; the failure is gone from `rest`. -/
  | failure (message : String) (rest : Input)
  /-- Nothing is left. -/
  | done
  deriving DecidableEq, Repr

/-- Looks for the next byte past interruptions and empty chunks. -/
def next : Input → Next
  | [] => .done
  | .interruption :: input => next input
  | .failure message :: input => .failure message input
  | .chunk [] :: input => next input
  | .chunk (value :: bytes) :: input => .byte value (.chunk bytes :: input)

/-- The input that consists of the given bytes. -/
def ofBytes (bytes : List UInt8) : Input := [.chunk bytes]

/-- The bytes that are not consumed yet. -/
def bytes (input : Input) : List UInt8 :=
  input.flatMap fun
    | .chunk bytes => bytes
    | .failure _ | .interruption => []

end Input

end TapeTower
