/-!
# Faults

Everything that can go wrong between a source text and the end of its run, by
cause. The wording shown to a user is in `ParseFault.message` and
`Fault.message` and nowhere else.
-/

namespace TapeTower

/-- Why a text is no tree, other than for an unmatched parenthesis. -/
inductive ParseFault where
  /-- There is nothing but blanks. -/
  | empty
  /-- Text is left after a complete tree. -/
  | trailingContent (rest : String)
  /-- A node is enclosed by `limit` lists or more. -/
  | tooDeeplyNested (limit : Nat)
  deriving DecidableEq, Repr

/-- Why a source text was not lowered, or why its run stopped early. Positions
are byte offsets into the UTF-8 form of the text. -/
inductive Fault where
  /-- A loop bracket or a parenthesis has no partner. -/
  | unmatchedDelimiter (delimiter : Char) (position : Nat)
  /-- The head of a list names no function. -/
  | unknownFunction (name : String)
  /-- An atom stands where a function call is expected. -/
  | expectedCall (atom : String)
  /-- An argument has the wrong shape or is no number. -/
  | invalidArgument (function argument : String)
  /-- A numeral is too large for an operation that cannot reduce it. -/
  | numeralOutOfRange (digits : String)
  /-- Lowering had not settled the text after `limit` steps. -/
  | noFixedPoint (limit : Nat)
  /-- A read found no input left. -/
  | inputExhausted
  /-- Reading the input or writing the output failed. -/
  | io (message : String)
  /-- The text is no tree. -/
  | parse (fault : ParseFault)
  deriving DecidableEq, Repr

/-- The wording of a parse fault. -/
def ParseFault.message : ParseFault → String
  | .empty => "Unexpected end of input"
  | .trailingContent rest => s!"Unexpected remaining input: '{rest}'"
  | .tooDeeplyNested limit => s!"Expression too deeply nested (max depth: {limit})"

/-- The wording of a fault. -/
def Fault.message : Fault → String
  | .unmatchedDelimiter delimiter position =>
    s!"Unmatched delimiter '{delimiter}' at position {position}"
  | .unknownFunction name => s!"Unknown function: {name}"
  | .expectedCall atom => s!"Expected a function call, found atom: {atom}"
  | .invalidArgument function argument => s!"Invalid argument to {function}: {argument}"
  | .numeralOutOfRange digits => s!"Numeral out of range: {digits}"
  | .noFixedPoint limit => s!"Macro translation did not reach a fixed point within {limit} steps"
  | .inputExhausted => "Input exhausted"
  | .io message => s!"I/O error: {message}"
  | .parse fault => s!"ParseError: {fault.message}"

end TapeTower
