import TapeTower.CommandLine.Repl
import TapeTower.Text.Bytes

/-!
# Lines of a pipe

Where nobody is at a keyboard, the stream is cut at its line feeds, and nothing behind a
line feed is taken from it.
-/

namespace TapeTower.Repl

/-- A line without the carriage return in front of its line feed. -/
def dropReturn (line : List Char) : List Char :=
  if line.getLast? = some '\r' then line.dropLast else line

/-- Takes the next line from a pipe. It ends with a line feed, or a carriage return and a
line feed; the last line may go without. The prompt is not shown. -/
def Reader.pipe : Reader := fun _ stdin =>
  if stdin.isEmpty then
    .done
  else
    match Text.ofBytes? (stdin.takeWhile (· ≠ 0x0A)), stdin.dropWhile (· ≠ 0x0A) with
    | none, _ => .failed
    | some line, [] => .text line []
    | some line, _ :: rest => .text (dropReturn line) rest

end TapeTower.Repl
