import TapeTower.Alpha.Numeral
import TapeTower.CommandLine

/-!
# Arguments of the command line

The arguments name a subcommand and its operands, with flags among them. Global flags
may stand before the subcommand and after it; given at both levels, the later one
counts. Whatever is not understood makes the whole command line refused.
-/

namespace TapeTower.CommandLine

/-! ### Flags -/

/-- The flags of the command line. -/
inductive Flag where
  | dialect
  | memorySize
  | verbose
  | minimize
  | method
  deriving DecidableEq, Repr

namespace Flag

/-- How a flag is written. -/
def name : Flag → String
  | .dialect => "--dialect"
  | .memorySize => "--memory-size"
  | .verbose => "--verbose"
  | .minimize => "--minimize"
  | .method => "--method"

/-- A flag that is not followed by a value. -/
def isSwitch : Flag → Bool
  | .verbose | .minimize => true
  | .dialect | .memorySize | .method => false

/-- The flags that may stand anywhere. -/
def global : List Flag := [dialect, memorySize, verbose]

end Flag

/-- A flag and the value given for it; that of a switch is empty. -/
structure Setting where
  flag : Flag
  value : String
  deriving DecidableEq, Repr

/-- Reads an argument that starts with a dash as one of the allowed flags. If its value
is not in the argument itself, it is the next one of `rest`. -/
def readFlag? (allowed : List Flag) (argument : String) (rest : List String) :
    Option (Setting × List String) :=
  let text := argument.toList
  let name := if argument = "-v" then "--verbose" else String.ofList (text.takeWhile (· ≠ '='))
  match allowed.find? fun flag => flag.name == name, text.dropWhile (· ≠ '='), rest with
  | none, _, _ => none
  | some flag, [], rest =>
    if flag.isSwitch then
      some (⟨flag, ""⟩, rest)
    else
      match rest with
      | value :: rest => some (⟨flag, value⟩, rest)
      | [] => none
  | some flag, _ :: value, rest =>
    if flag.isSwitch then none else some (⟨flag, String.ofList value⟩, rest)

theorem length_lt_of_readFlag? {allowed : List Flag} {argument : String}
    {rest rest' : List String} {setting : Setting}
    (h : readFlag? allowed argument rest = some (setting, rest')) :
    rest'.length < rest.length + 1 := by
  unfold readFlag? at h
  grind

/-- An argument that starts with a dash is a flag. A dash alone is an operand. -/
def isFlag (argument : String) : Bool :=
  argument.startsWith "-" && argument != "-"

/-- Reads the settings and the operands of a subcommand. After `--` there are operands
only. -/
def readOperands? (allowed : List Flag) : (arguments : List String) →
    Option (List Setting × List String)
  | [] => some ([], [])
  | argument :: rest =>
    if argument = "--" then
      some ([], rest)
    else if isFlag argument then
      match h : readFlag? allowed argument rest with
      | some (setting, rest') =>
        have := length_lt_of_readFlag? h
        (readOperands? allowed rest').map fun (settings, operands) =>
          (setting :: settings, operands)
      | none => none
    else
      (readOperands? allowed rest).map fun (settings, operands) =>
        (settings, argument :: operands)
termination_by arguments => arguments.length

/-- Reads the settings in front of the subcommand, its name, and the arguments after
it. -/
def readSubcommand? : (arguments : List String) → Option (List Setting × String × List String)
  | [] => none
  | argument :: rest =>
    if isFlag argument then
      match h : readFlag? Flag.global argument rest with
      | some (setting, rest') =>
        have := length_lt_of_readFlag? h
        (readSubcommand? rest').map fun (settings, found) => (setting :: settings, found)
      | none => none
    else
      some ([], argument, rest)
termination_by arguments => arguments.length

/-- No flag is given twice. -/
def distinct (settings : List Setting) : Bool :=
  decide (settings.map Setting.flag).Nodup

/-! ### Invocations -/

/-- A command line that was understood. -/
structure Invocation where
  command : Command
  options : Options
  deriving DecidableEq, Repr

/-- The number that a text writes, if it is below `2 ^ 64`; a plus sign may stand in
front. -/
def readSize? (text : String) : Option Nat :=
  let digits :=
    match text.toList with
    | '+' :: digits => digits
    | digits => digits
  (Alpha.Numeral.ofText? digits).bind fun numeral =>
    if numeral.value < 0x10000000000000000 then some numeral.value else none

/-- The method of a name. -/
def Method.ofName? : String → Option Method
  | "naive" => some .naive
  | "loop" => some .loop
  | _ => none

/-- The value of a flag is one that it takes. -/
def Setting.isValid (setting : Setting) : Bool :=
  match setting.flag with
  | .dialect => (Dialect.ofName? setting.value).isSome
  | .memorySize => (readSize? setting.value).isSome
  | .method => (Method.ofName? setting.value).isSome
  | .verbose | .minimize => true

/-- The value that the last setting of a flag gives it. -/
def valueOf? (settings : List Setting) (flag : Flag) : Option String :=
  (settings.reverse.find? fun setting => setting.flag == flag).map Setting.value

/-- The flags that a subcommand has beside the global ones. -/
def ownFlags : String → Option (List Flag)
  | "run" => some []
  | "compile" => some [.minimize]
  | "encode" => some [.method]
  | "repl" => some []
  | _ => none

/-- The command of a subcommand with its operands. The name of a file is not empty. -/
def command? (name : String) (operands : List String) (settings : List Setting) :
    Option Command :=
  match name, operands with
  | "run", [file] => if file = "" then none else some (.run file)
  | "compile", [file] =>
    if file = "" then none else some (.compile file (valueOf? settings .minimize).isSome)
  | "encode", [text] =>
    some (.encode text (((valueOf? settings .method).bind Method.ofName?).getD .loop))
  | "repl", [] => some .repl
  | _, _ => none

/-- Understands a command line. -/
def Invocation.ofArguments? (arguments : List String) : Option Invocation := do
  let (before, name, rest) ← readSubcommand? arguments
  let (after, operands) ← readOperands? (Flag.global ++ (← ownFlags name)) rest
  let settings := before ++ after
  if distinct before && distinct after && settings.all Setting.isValid then
    let options : Options :=
      { dialect := (valueOf? settings .dialect).bind Dialect.ofName?
        memorySize := ((valueOf? settings .memorySize).bind readSize?).getD Tape.defaultSize }
    return ⟨← command? name operands settings, options⟩
  else
    none

end TapeTower.CommandLine
