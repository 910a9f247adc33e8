/-!
# Output sinks

A sink takes the characters that a run prints. It may have room for a limited
number of bytes, and its flushes may fail.
-/

namespace TapeTower

/-- Where the output of a run goes. -/
structure Sink where
  /-- What has been written so far. -/
  written : String
  /-- The number of bytes that the sink has room for in all; `none` if it has no end. -/
  capacity : Option Nat
  /-- Every flush fails. -/
  flushFails : Bool
  deriving DecidableEq, Repr

namespace Sink

/-- An empty sink that never fails. -/
def unlimited : Sink := ⟨"", none, false⟩

/-- The sink has room for a character: all its bytes fit. -/
def fits (sink : Sink) (c : Char) : Bool :=
  match sink.capacity with
  | none => true
  | some capacity => sink.written.utf8ByteSize + c.utf8Size ≤ capacity

/-- Writes a character whole or, without room for it, not at all. -/
def write? (sink : Sink) (c : Char) : Option Sink :=
  if sink.fits c then some { sink with written := sink.written.push c } else none

end Sink

end TapeTower
