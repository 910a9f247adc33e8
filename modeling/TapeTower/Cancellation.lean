/-!
# Cancellation of opposite characters

Two opposite characters, such as `+` and `-`, cancel when only their like stands
between them. Cancelling is done run by run: of a maximal run of the two, the
surplus of the more frequent one is left.
-/

namespace TapeTower

/-- Two characters that cancel each other. -/
structure Opposites where
  first : Char
  second : Char
  deriving DecidableEq, Repr

namespace Opposites

/-- The two changes of a cell. -/
def change : Opposites := ⟨'+', '-'⟩

/-- The two moves of the cursor. -/
def move : Opposites := ⟨'>', '<'⟩

/-- A text under cancellation: how often each of the opposites occurs in the run
that it starts with, and the cancelled text after that run. -/
structure Run where
  firsts : Nat
  seconds : Nat
  rest : List Char

/-- The cancelled text: the surplus of the leading run, then the rest. -/
def Run.toText (pair : Opposites) (run : Run) : List Char :=
  if run.seconds < run.firsts then
    List.replicate (run.firsts - run.seconds) pair.first ++ run.rest
  else
    List.replicate (run.seconds - run.firsts) pair.second ++ run.rest

/-- Puts a character in front of a text under cancellation: one of the opposites
lengthens the leading run, any other character ends it. -/
def Run.cons (pair : Opposites) (c : Char) (run : Run) : Run :=
  if c = pair.first then
    { run with firsts := run.firsts + 1 }
  else if c = pair.second then
    { run with seconds := run.seconds + 1 }
  else
    ⟨0, 0, c :: run.toText pair⟩

/-- Replaces each maximal run of the two opposites by the surplus of the more
frequent one. -/
def cancel (pair : Opposites) (text : List Char) : List Char :=
  (text.foldr (Run.cons pair) ⟨0, 0, []⟩).toText pair

end Opposites

/-- Cancels the changes of a cell and then the moves of the cursor, some of which
may have come together only by the first cancellation. -/
def minimize (code : List Char) : List Char :=
  Opposites.move.cancel (Opposites.change.cancel code)

end TapeTower
