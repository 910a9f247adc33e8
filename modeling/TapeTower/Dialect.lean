import TapeTower.Alpha.Lowering
import TapeTower.Beta
import TapeTower.Machine
import TapeTower.Tree.Parser

/-!
# Dialects

Programs are written in one of three dialects, each built on the one before:
instructions of the tape machine, tokens with numerals, and trees. A source text is
lowered until only instructions are left, and these are run.
-/

namespace TapeTower

/-- The language of a source text. -/
inductive Dialect where
  /-- Instructions of the tape machine. -/
  | base
  /-- Tokens. -/
  | alpha
  /-- Trees. -/
  | beta
  deriving DecidableEq, Repr

namespace Dialect

/-- The name of a dialect. -/
def name : Dialect → String
  | .base => "base"
  | .alpha => "alpha"
  | .beta => "beta"

/-- The dialect of a name. -/
def ofName? (name : String) : Option Dialect :=
  [base, alpha, beta].find? fun dialect => dialect.name == name

/-- The dialect of the files with a given extension. -/
def ofExtension? : String → Option Dialect
  | "bf" | "b" => some .base
  | "bfa" => some .alpha
  | "bfb" | "lisp" => some .beta
  | _ => none

/-- The delimiters that give a text its structure. -/
def delimiters : Dialect → Delimiters Char
  | .base | .alpha => .loop
  | .beta => .paren

/-! ### Lowering -/

/-- Lowers a source text to instructions. -/
def compile (dialect : Dialect) (source : List Char) : Except Fault (List Char) :=
  match dialect with
  | .base => .ok source
  | .alpha => Alpha.lower source
  | .beta => do
    let tree ← Tree.parse source
    Alpha.lower (← Beta.compile tree)

/-- Lowers a source text and runs it from byte `start` on. If it cannot be lowered,
nothing else happens. -/
def compileAndRun (fuel : Nat) (dialect : Dialect) (source : List Char) (start : Nat)
    (tape : Tape) (input : Input) (sink : Sink) : Option Halt :=
  match dialect.compile source with
  | .ok code => execute fuel code start tape input sink
  | .error fault => some ⟨.error fault, ⟨tape, input, sink, ""⟩⟩

/-! ### Unfinished texts -/

/-- A text has as many closing delimiters as opening ones. -/
def isComplete (dialect : Dialect) (text : List Char) : Bool :=
  dialect.delimiters.allMatched text

/-- More text is needed: an opening delimiter still waits for its partner. A text
with a stray closing delimiter is past help and needs no more. -/
def needsMore (dialect : Dialect) (text : List Char) : Bool :=
  !dialect.isComplete text &&
    match dialect.delimiters.firstUnmatched text with
    | some (.opening, _) => true
    | _ => false

end Dialect

end TapeTower
