import TapeTower.Alpha.Token
import TapeTower.Fault
import TapeTower.Tree

/-!
# Compiling trees to tokens

A tree is a function call: a list whose head names the function. A call compiles to
tokens of the layer below, which are then written down without anything between
them. Numeric arguments default to `1`, and only the first argument is looked at.
-/

namespace TapeTower.Beta

open Alpha

/-! ### Functions -/

/-- The functions of the language. -/
inductive Function where
  | progn
  | whileNonzero
  | input
  | output
  | setTo
  | addRelative
  | subRelative
  | moveRelative
  | increment
  | decrement
  | right
  | left
  deriving DecidableEq, Repr

namespace Function

/-- All functions. -/
def all : List Function :=
  [progn, whileNonzero, input, output, setTo, addRelative, subRelative, moveRelative, increment,
    decrement, right, left]

/-- How a function is called. -/
def name : Function → String
  | .progn => "progn"
  | .whileNonzero => "while-n-0"
  | .input => "input"
  | .output => "output"
  | .setTo => "set-to"
  | .addRelative => "add!-relative"
  | .subRelative => "sub!-relative"
  | .moveRelative => "move-relative"
  | .increment => "+"
  | .decrement => "-"
  | .right => ">"
  | .left => "<"

/-- The function of a name. -/
def ofName? (name : String) : Option Function :=
  all.find? fun function => function.name == name

/-- The fault that a function cannot use an argument. -/
def invalidArgument (function : Function) (argument : Tree) : Fault :=
  .invalidArgument function.name (String.ofList argument.render)

end Function

/-! ### Arguments -/

/-- The signed number that a text writes, if it has 64 bits at most: digits with an
optional sign in front. -/
def readDistance? (text : List Char) : Option Int :=
  let bounded (distance : Int) : Option Int :=
    if -0x8000000000000000 ≤ distance ∧ distance < 0x8000000000000000 then some distance else none
  let magnitude (text : List Char) : Option Int :=
    (Numeral.ofText? text).map fun numeral => (numeral.value : Int)
  match text with
  | '-' :: text => (magnitude text).bind fun n => bounded (-n)
  | '+' :: text => (magnitude text).bind bounded
  | text => (magnitude text).bind bounded

/-- The text of the first argument, which has to be an atom. -/
def atomArgument (function : Function) : List Tree → Except Fault (Option (List Char))
  | [] => .ok none
  | .atom text :: _ => .ok (some text)
  | argument :: _ => .error (function.invalidArgument argument)

/-- The first argument as a numeral. -/
def countArgument (function : Function) (arguments : List Tree) : Except Fault Numeral := do
  match ← atomArgument function arguments with
  | none => .ok .one
  | some text =>
    match Numeral.ofText? text with
    | some numeral => .ok numeral
    | none => .error (function.invalidArgument (.atom text))

/-- The first argument as a signed distance. -/
def distanceArgument (function : Function) (arguments : List Tree) : Except Fault Int := do
  match ← atomArgument function arguments with
  | none => .ok 1
  | some text =>
    match readDistance? text with
    | some distance => .ok distance
    | none => .error (function.invalidArgument (.atom text))

/-! ### Calls -/

/-- The token of one instruction that acts once. -/
def once (char : Char) : Token UInt32 := ⟨.instruction char, 1⟩

/-- The token of a verb that acts as often as the first argument says. -/
def counted (verb : Verb) (reading : Numeral → UInt32) (function : Function)
    (arguments : List Tree) : Except Fault (List (Token UInt32)) := do
  return [⟨verb, reading (← countArgument function arguments)⟩]

/-- The command of a family over the distance that the first argument says. -/
def relative (family : Family) (function : Function) (arguments : List Tree) :
    Except Fault (List (Token UInt32)) := do
  return [← Token.relative family (← distanceArgument function arguments)]

mutual

/-- The tokens of a call. Nothing is emitted unless the whole tree compiles. -/
def tokensOfCall : Tree → Except Fault (List (Token UInt32))
  | .atom text => .error (.expectedCall (String.ofList text))
  | .list [] => .error (.unknownFunction (String.ofList Tree.nil.render))
  | .list (.list items :: _) =>
    .error (.unknownFunction (String.ofList (Tree.list items).render))
  | .list (.atom name :: arguments) =>
    match Function.ofName? (String.ofList name) with
    | none => .error (.unknownFunction (String.ofList name))
    | some function =>
      match function with
      | .progn => tokensOfCalls arguments
      | .whileNonzero => do
        return once '[' :: (← tokensOfCalls arguments) ++ [once ']']
      | .input => .ok [once ',']
      | .output => .ok [once '.']
      | .setTo => counted .set Numeral.wrapping function arguments
      | .addRelative => relative .add function arguments
      | .subRelative => relative .sub function arguments
      | .moveRelative => relative .move function arguments
      | .increment => counted (.instruction '+') Numeral.wrapping function arguments
      | .decrement => counted (.instruction '-') Numeral.wrapping function arguments
      | .right => counted (.instruction '>') Numeral.saturating function arguments
      | .left => counted (.instruction '<') Numeral.saturating function arguments

/-- The tokens of some calls, one after the other. -/
def tokensOfCalls : List Tree → Except Fault (List (Token UInt32))
  | [] => .ok []
  | call :: calls => do
    return (← tokensOfCall call) ++ (← tokensOfCalls calls)

end

/-- Compiles a tree to the text of its tokens. -/
def compile (tree : Tree) : Except Fault (List Char) :=
  (tokensOfCall tree).map fun tokens => tokens.flatMap Token.render

end TapeTower.Beta
