import TapeTower.Cancellation
import TapeTower.Delimiter
import TapeTower.Input.Character
import TapeTower.Instruction
import TapeTower.Sink
import TapeTower.Tape
import TapeTower.Text.Bytes

/-!
# The tape machine

A machine runs a program, which is a text, on a tape. It reads characters from
its input and prints characters to its sink. `Machine.step` is one instruction
and `Machine.run` repeats it with fuel: it answers `none` only if the fuel ran out
before the program ended, so that a program terminates if some fuel gives an
answer.

`execute` is what a program means. It cancels opposite instructions and checks
the loop brackets before anything runs.
-/

namespace TapeTower

/-- All that a running program acts on. -/
structure Machine where
  tape : Tape
  input : Input
  sink : Sink
  /-- The characters that this run has printed. -/
  printed : String

/-- The end of a run: what it printed or why it stopped early, and the machine as
the run left it. -/
structure Halt where
  result : Except Fault String
  machine : Machine

/-- The character that a cell prints as: the one with that code point, if any. -/
def printedChar (value : UInt32) : Char :=
  if value.toNat.isValidChar then Char.ofNat value.toNat else Char.ofNat replacement

namespace Place

/-- The place in front of the first character of `ahead` that begins `offset` bytes
or more after the start of `ahead`. -/
def skipBytes : (offset : Nat) → (behind ahead : List Char) → Place Char
  | 0, behind, ahead => ⟨behind, ahead⟩
  | _ + 1, behind, [] => ⟨behind, []⟩
  | offset + 1, behind, c :: ahead => skipBytes (offset + 1 - c.utf8Size) (c :: behind) ahead

/-- The place in a text where the instruction at the given byte is next; past the
end there is none. A byte inside a character belongs to no instruction. -/
def atByte (text : List Char) (offset : Nat) : Place Char :=
  skipBytes offset [] text

end Place

namespace Machine

/-! ### One instruction -/

/-- What a step leads to. -/
inductive Progress where
  | next (place : Place Char) (machine : Machine)
  | halt (halt : Halt)

/-- Prints the current cell. -/
def print (m : Machine) : Except Fault Unit × Machine :=
  let c := printedChar m.tape.current
  match m.sink.write? c with
  | some sink => (.ok (), { m with sink, printed := m.printed.push c })
  | none => (.error (.io "sink full"), m)

/-- Makes sure that all output is delivered. -/
def flush (m : Machine) : Except Fault Unit :=
  if m.sink.flushFails then .error (.io "flush failed") else .ok ()

/-- Reads a character into the current cell, once all output is delivered. -/
def read (m : Machine) : Except Fault Unit × Machine :=
  match m.flush with
  | .error fault => (.error fault, m)
  | .ok () =>
    match m.input.readCharacter with
    | (.ok code, input) =>
      (.ok (), { m with tape := m.tape.setCurrent (UInt32.ofNat code), input })
    | (.error fault, input) => (.error fault, { m with input })

/-- The effect of an instruction on the machine. Loop brackets have none. -/
def perform (m : Machine) : Instruction → Except Fault Unit × Machine
  | .increment => (.ok (), { m with tape := m.tape.increment })
  | .decrement => (.ok (), { m with tape := m.tape.decrement })
  | .moveLeft => (.ok (), { m with tape := m.tape.moveLeft })
  | .moveRight => (.ok (), { m with tape := m.tape.moveRight })
  | .beginLoop => (.ok (), m)
  | .endLoop => (.ok (), m)
  | .read => m.read
  | .print => m.print

/-- The way in which a bracket makes the machine jump, if it does. -/
def jump? (m : Machine) : Instruction → Option Direction
  | .beginLoop => if m.tape.current = 0 then some .forward else none
  | .endLoop => if m.tape.current = 0 then none else some .backward
  | _ => none

/-- One step: the instruction ahead is carried out and passed, or a bracket jumps
to just after its partner, or the program is at its end. -/
def step (place : Place Char) (m : Machine) : Progress :=
  match place.ahead with
  | [] =>
    match m.flush with
    | .ok () => .halt ⟨.ok m.printed, m⟩
    | .error fault => .halt ⟨.error fault, m⟩
  | c :: ahead =>
    match Instruction.ofChar? c with
    | none => .next ⟨c :: place.behind, ahead⟩ m
    | some instruction =>
      match m.jump? instruction with
      | some direction =>
        match place.afterPartner .loop direction with
        | some place => .next place m
        | none => .halt ⟨.error (.unmatchedDelimiter c (Text.byteLength place.behind)), m⟩
      | none =>
        match m.perform instruction with
        | (.ok (), m) => .next ⟨c :: place.behind, ahead⟩ m
        | (.error fault, m) => .halt ⟨.error fault, m⟩

/-! ### Whole runs -/

/-- Runs from a place in a program to its end, in fewer than `fuel` steps. -/
def run : (fuel : Nat) → Place Char → Machine → Option Halt
  | 0, _, _ => none
  | fuel + 1, place, m =>
    match m.step place with
    | .next place m => run fuel place m
    | .halt halt => some halt

end Machine

/-- Runs a program: its opposite instructions are cancelled, its loop brackets are
checked, and then the instructions are carried out from byte `start` on. -/
def execute (fuel : Nat) (code : List Char) (start : Nat) (tape : Tape) (input : Input)
    (sink : Sink) : Option Halt :=
  let code := minimize code
  let machine : Machine := ⟨tape, input, sink, ""⟩
  match Delimiters.loop.firstUnmatched code with
  | some (side, index) =>
    let position := Text.byteLength (code.take index)
    some ⟨.error (.unmatchedDelimiter (Delimiters.loop.symbol side) position), machine⟩
  | none => machine.run fuel (Place.atByte code start)

end TapeTower
