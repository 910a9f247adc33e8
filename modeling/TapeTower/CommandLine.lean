import TapeTower.CommandLine.Repl
import TapeTower.Encoder

/-!
# The command line

What the program does when it is asked for one of its commands, with the files it is given
and its standard input, up to its exit code and all that it prints.
-/

namespace TapeTower.CommandLine

/-! ### Commands and options -/

/-- How `encode` makes its program. -/
inductive Method where
  | naive
  | loop
  deriving DecidableEq, Repr

/-- What the program is asked to do. -/
inductive Command where
  | run (file : String)
  | compile (file : String) (minimize : Bool)
  | encode (text : String) (method : Method)
  | repl
  deriving DecidableEq, Repr

/-- The file that a command reads. -/
def Command.file? : Command → Option String
  | .run file => some file
  | .compile file _ => some file
  | .encode _ _ | .repl => none

/-- What all commands may be given. Without a dialect, the command chooses. -/
structure Options where
  dialect : Option Dialect
  memorySize : Nat
  deriving DecidableEq, Repr

/-! ### Files -/

/-- The extension of a file: what follows the last dot of its name. A dot that starts
the name begins no extension. -/
def extension? (file : String) : Option String :=
  let reversed := (file.toList.reverse.takeWhile (· ≠ '/'))
  match reversed.dropWhile (· ≠ '.') with
  | _ :: _ :: _ => some (String.ofList (reversed.takeWhile (· ≠ '.')).reverse)
  | _ => none

/-- The dialect of a file: the one asked for or, without one, that of its extension. -/
def Options.dialectFor? (options : Options) (file : String) : Option Dialect :=
  match options.dialect with
  | some dialect => some dialect
  | none => (extension? file).bind Dialect.ofExtension?

/-- Reads a source file as text, with its dialect. -/
def source? (options : Options) (files : String → Option (List UInt8)) (file : String) :
    Option (Dialect × List Char) := do
  let dialect ← options.dialectFor? file
  return (dialect, ← Text.ofBytes? (← files file))

/-! ### Carrying out a command -/

/-- A failure after `stdout` was printed. -/
def failure (stdout : String) : Outcome := ⟨1, stdout⟩

/-- Runs a source file on a blank tape. -/
def run (fuel : Nat) (dialect : Dialect) (source : List Char) (size : Nat)
    (stdin : List UInt8) : Option Outcome :=
  (dialect.compileAndRun fuel source 0 (.blank size) (Input.ofBytes stdin) .unlimited).map
    fun halt =>
      let stdout := halt.machine.sink.written
      match halt.result with
      | .ok _ => ⟨0, stdout⟩
      | .error _ => failure stdout

/-- Prints the instructions that a source text is lowered to. -/
def compile (dialect : Dialect) (source : List Char) (minimized : Bool) : Outcome :=
  match dialect.compile source with
  | .ok code => ⟨0, String.ofList ((if minimized then minimize code else code) ++ ['\n'])⟩
  | .error _ => failure ""

/-- Prints a program that prints a text. -/
def encode (text : List Char) : Method → Outcome
  | .naive => ⟨0, String.ofList (Encoder.naive text ++ ['\n'])⟩
  | .loop => ⟨0, String.ofList (Encoder.looped text ++ ['\n'])⟩

/-- Carries out a command. Its files are what `files` says, and `read` takes lines from the
standard input. -/
def Command.exec (command : Command) (options : Options) (fuel : Nat) (read : Repl.Reader)
    (files : String → Option (List UInt8)) (stdin : List UInt8) : Option Outcome :=
  match command with
  | .run file =>
    match source? options files file with
    | some (dialect, source) => CommandLine.run fuel dialect source options.memorySize stdin
    | none => some (failure "")
  | .compile file minimized =>
    match source? options files file with
    | some (dialect, source) => some (CommandLine.compile dialect source minimized)
    | none => some (failure "")
  | .encode text method => some (CommandLine.encode text.toList method)
  | .repl => Repl.interact read fuel (options.dialect.getD .beta) options.memorySize stdin

end TapeTower.CommandLine
