import TapeTower.Dialect

/-!
# Sessions

A session is one tape and one input that live through many actions. An action that
fails midway leaves its traces, and the session goes on from there.
-/

namespace TapeTower

/-- A tape and an input to act on. -/
structure Session where
  tape : Tape
  input : Input

namespace Session

/-- What can be done in a session. -/
inductive Action where
  /-- More input arrives. -/
  | feed (deliveries : Input)
  | moveTo (index : Nat)
  | set (index : Nat) (value : UInt32)
  | setCurrent (value : UInt32)
  | get (index : Nat)
  | current
  | size
  | isEmpty
  | render
  /-- Runs a program with a sink of its own. -/
  | execute (code : List Char) (start : Nat) (sink : Sink)
  /-- Lowers a source text and runs it with a sink of its own. -/
  | run (dialect : Dialect) (source : List Char) (start : Nat) (sink : Sink)

/-- What an action answers. -/
inductive Reply where
  | nothing
  | cell (value : Option UInt32)
  | number (n : Nat)
  | flag (b : Bool)
  | text (text : List Char)
  /-- The result of a run, and what reached its sink. -/
  | ran (result : Except Fault String) (written : String)

/-- The session and the answer after a run. -/
def afterRun (halt : Halt) : Session × Reply :=
  (⟨halt.machine.tape, halt.machine.input⟩, .ran halt.result halt.machine.sink.written)

/-- Carries out an action. Only a run that does not end in time has no answer. -/
def act (fuel : Nat) (session : Session) : Action → Option (Session × Reply)
  | .feed deliveries => some (⟨session.tape, session.input ++ deliveries⟩, .nothing)
  | .moveTo index => some (⟨session.tape.moveTo index, session.input⟩, .nothing)
  | .set index value => some (⟨session.tape.set index value, session.input⟩, .nothing)
  | .setCurrent value => some (⟨session.tape.setCurrent value, session.input⟩, .nothing)
  | .get index => some (session, .cell (session.tape.get? index))
  | .current => some (session, .cell (some session.tape.current))
  | .size => some (session, .number session.tape.size)
  | .isEmpty => some (session, .flag (session.tape.size == 0))
  | .render => some (session, .text session.tape.render)
  | .execute code start sink =>
    (TapeTower.execute fuel code start session.tape session.input sink).map afterRun
  | .run dialect source start sink =>
    (dialect.compileAndRun fuel source start session.tape session.input sink).map afterRun

end Session

end TapeTower
