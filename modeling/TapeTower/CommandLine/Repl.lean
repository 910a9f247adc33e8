import TapeTower.Dialect

/-!
# The interactive loop

Programs are read line by line and run against one tape. A program may take several lines:
as long as an opening delimiter waits for its partner, the next line belongs to the same
program. What a running program reads comes from the same stream as the lines, right after
the last line of the program.

How a line is taken from the stream is not the loop's concern: it is given the reader that
does this.
-/

namespace TapeTower

/-- How the command line ends: its exit code, and all that it printed. -/
structure Outcome where
  exit : Nat
  stdout : String
  deriving DecidableEq, Repr

namespace Repl

/-! ### Lines -/

/-- What one finds on asking for a line. -/
inductive Line where
  /-- A line, and the bytes after it. -/
  | text (line : List Char) (rest : List UInt8)
  /-- The user gave up the lines gathered so far; the bytes that are left. -/
  | interrupted (rest : List UInt8)
  /-- Nothing is left. -/
  | done
  /-- A line that cannot be read. -/
  | failed
  /-- The reader itself broke down. -/
  | aborted
  deriving DecidableEq, Repr

/-- A way to ask for a line. It is shown a prompt and takes the line from the stream. -/
abbrev Reader := (prompt : String) → (stdin : List UInt8) → Line

/-- What asks for a line: whether it begins a program or goes on with the lines so far. -/
def prompt (buffer : List Char) : String :=
  if buffer.isEmpty then "| " else "..| "

/-- What a line leads to. -/
inductive Move where
  /-- More lines are needed; these are gathered so far. -/
  | wait (buffer : List Char)
  /-- The program is complete. -/
  | submit (source : List Char)
  /-- The user wants to leave. -/
  | leave
  deriving DecidableEq, Repr

/-- Adds a line to the lines gathered so far. Blank lines and the words that end the
loop have a meaning only where a program could start. -/
def onLine (dialect : Dialect) (buffer line : List Char) : Move :=
  let word := String.ofList (Text.trim line)
  if buffer = [] ∧ word = "" then
    .wait []
  else if buffer = [] ∧ (word = ":quit" ∨ word = ":exit") then
    .leave
  else
    let buffer := buffer ++ line ++ ['\n']
    if dialect.needsMore buffer then .wait buffer else .submit buffer

/-! ### Turns -/

/-- What a turn leaves: the tape, the rest of the stream, and what was printed. -/
structure Turn where
  tape : Tape
  stdin : List UInt8
  stdout : String

/-- What is printed after the output of a run. Output that does not end its last line
has it ended; a fault is reported on a line of its own. -/
def report : Except Fault String → String
  | .ok output => if output.isEmpty || output.endsWith "\n" then "" else "\n"
  | .error fault => s!"\nError: {fault.message}\n"

/-- Runs a program and shows the tape. -/
def runTurn (fuel : Nat) (dialect : Dialect) (source : List Char) (tape : Tape)
    (stdin : List UInt8) : Option Turn :=
  (dialect.compileAndRun fuel source 0 tape (Input.ofBytes stdin) .unlimited).map
    fun ⟨result, machine⟩ =>
      { tape := machine.tape
        stdin := machine.input.bytes
        stdout :=
          machine.sink.written ++ report result ++ String.ofList machine.tape.render ++ "\n" }

/-! ### The loop -/

/-- The words at the beginning. -/
def banner (dialect : Dialect) : String :=
  let name :=
    match dialect with
    | .base => "Base"
    | .alpha => "Alpha"
    | .beta => "Beta"
  s!"tapelisp {name} REPL. Type :quit or press Ctrl-D to leave.\n"

/-- The words at the end. -/
def farewell : String := "Goodbye!\n"

/-- Goes on after `stdout` was printed, with the lines gathered so far. An interruption
drops these lines. A line that cannot be read ends the loop with a failure, and a reader
that breaks down ends it with exit code 101. Each turn, and the loop itself, has to end in
fewer than `fuel` steps. -/
def loop (read : Reader) (dialect : Dialect) : (fuel : Nat) → (tape : Tape) →
    (buffer : List Char) → (stdin : List UInt8) → (stdout : String) → Option Outcome
  | 0, _, _, _, _ => none
  | fuel + 1, tape, buffer, stdin, stdout =>
    match read (prompt buffer) stdin with
    | .done => some ⟨0, stdout ++ farewell⟩
    | .failed => some ⟨1, stdout⟩
    | .aborted => some ⟨101, stdout⟩
    | .interrupted rest => loop read dialect fuel tape [] rest stdout
    | .text line rest =>
      match onLine dialect buffer line with
      | .leave => some ⟨0, stdout ++ farewell⟩
      | .wait buffer => loop read dialect fuel tape buffer rest stdout
      | .submit source =>
        match runTurn fuel dialect source tape rest with
        | some turn => loop read dialect fuel turn.tape [] turn.stdin (stdout ++ turn.stdout)
        | none => none

/-- The whole interaction on a blank tape. -/
def interact (read : Reader) (fuel : Nat) (dialect : Dialect) (size : Nat)
    (stdin : List UInt8) : Option Outcome :=
  loop read dialect fuel (.blank size) [] stdin (banner dialect)

end Repl

end TapeTower
