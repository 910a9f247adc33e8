import TapeTower.Proofs.Machine.Reach

/-!
# Output that is always delivered

A sink that never fails makes reading and printing simple: a read takes the next character
of the input or its fault (`receive`), and printing always succeeds (`emit`).
-/

namespace TapeTower

/-- A sink that takes all output. -/
def Sink.NeverFails (sink : Sink) : Prop := sink.capacity = none ∧ sink.flushFails = false

namespace Machine

/-- The next character of the input becomes the current cell. -/
def receive (m : Machine) : Ending :=
  match m.input.readCharacter with
  | (.ok code, input) =>
    (.ok (), { m with tape := m.tape.setCurrent (UInt32.ofNat code), input })
  | (.error fault, input) => (.error fault, { m with input })

/-- The character of the current cell is put out. -/
def emit (m : Machine) : Machine :=
  let c := printedChar m.tape.current
  { m with sink := { m.sink with written := m.sink.written.push c }, printed := m.printed.push c }

variable {m : Machine}

lemma flush_of_neverFails (h : m.sink.NeverFails) : m.flush = .ok () := by
  rw [flush, h.2]
  rfl

lemma read_of_neverFails (h : m.sink.NeverFails) : m.read = m.receive := by
  rw [read, flush_of_neverFails h]
  rfl

lemma print_of_neverFails (h : m.sink.NeverFails) : m.print = (.ok (), m.emit) := by
  have hfits : m.sink.fits (printedChar m.tape.current) = true := by
    rw [Sink.fits, h.1]
  simp only [print, Sink.write?, if_pos hfits]
  rfl

end Machine

/-- Without a failing sink, a run ends as its program did, with all that was printed. -/
lemma Ending.halt_of_neverFails {e : Ending} (h : e.2.sink.NeverFails) :
    Ending.halt e = ⟨e.1.map fun _ => e.2.printed, e.2⟩ := by
  obtain ⟨_ | _, m⟩ := e
  · rfl
  · simp only [Ending.halt, Machine.flush_of_neverFails h]
    rfl

end TapeTower
