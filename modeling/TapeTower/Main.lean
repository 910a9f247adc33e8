import TapeTower.Main.Arguments
import TapeTower.Main.Backspace

/-!
# The program

Reads what the command line needs, carries it out and prints the outcome.
-/

namespace TapeTower

/-- More steps than any run takes in practice. -/
def ample : Nat := 0x4000000000000000

/-- Reads a stream to its end. -/
partial def readToEnd (stream : IO.FS.Stream) (bytes : ByteArray) : IO ByteArray := do
  let chunk ← stream.read 65536
  if chunk.isEmpty then return bytes else readToEnd stream (bytes ++ chunk)

/-- What a file holds, if it can be read. -/
def readFile? (path : String) : IO (Option (List UInt8)) := do
  try
    return some (← IO.FS.readBinFile path).toList
  catch _ =>
    return none

/-- The standard input, if the command reads it. -/
def readStdin (command : CommandLine.Command) : IO (List UInt8) := do
  match command with
  | .run _ | .repl => return (← readToEnd (← IO.getStdin) .empty).toList
  | .compile _ _ | .encode _ _ => return []

end TapeTower

def main (arguments : List String) : IO UInt32 := do
  let some ⟨command, options⟩ := TapeTower.CommandLine.Invocation.ofArguments? arguments
    | return 2
  let contents ←
    match command.file? with
    | some path => TapeTower.readFile? path
    | none => pure none
  let stdin ← TapeTower.readStdin command
  match command.exec options TapeTower.ample .typed (fun _ => contents) stdin with
  | some outcome =>
    IO.print outcome.stdout
    (← IO.getStdout).flush
    return outcome.exit.toUInt32
  | none => return 1
