import TapeTower.Dialect
import TapeTower.Proofs.Machine.Reach
import TapeTower.Proofs.Tape

/-!
# The number of cells in a run

A step keeps the number of cells, whatever the instruction is and whether it succeeds or fails
(`Machine.size_step`). So do all configurations that are reached, and every run of a program or
of a source text, however it ends.
-/

namespace TapeTower

variable {m : Machine}

namespace Machine

/-! ### One step -/

/-- The machine after a step, which may have been the last one. -/
def Progress.machine : Progress → Machine
  | .next _ m => m
  | .halt last => last.machine

lemma size_read : m.read.2.tape.size = m.tape.size := by
  unfold read
  cases m.flush with
  | error fault => rfl
  | ok _ =>
    obtain ⟨result, rest⟩ := m.input.readCharacter
    cases result with
    | error fault => rfl
    | ok code => exact m.tape.size_setCurrent _

lemma size_print : m.print.2.tape.size = m.tape.size := by
  unfold print
  dsimp only
  cases m.sink.write? (printedChar m.tape.current) with
  | none => rfl
  | some sink => rfl

lemma size_perform (instruction : Instruction) :
    (m.perform instruction).2.tape.size = m.tape.size := by
  cases instruction with
  | increment => exact m.tape.size_increment
  | decrement => exact m.tape.size_decrement
  | moveLeft => exact m.tape.size_moveLeft
  | moveRight => exact m.tape.size_moveRight
  | beginLoop => rfl
  | endLoop => rfl
  | read => exact size_read
  | print => exact size_print

theorem size_step (place : Place Char) : (m.step place).machine.tape.size = m.tape.size := by
  obtain ⟨behind, ahead⟩ := place
  cases ahead with
  | nil =>
    unfold step
    cases m.flush with
    | error fault => rfl
    | ok _ => rfl
  | cons c ahead =>
    cases hc : Instruction.ofChar? c with
    | none =>
      simp only [step, hc]
      rfl
    | some instruction =>
      simp only [step, hc]
      cases m.jump? instruction with
      | some direction =>
        dsimp only
        cases Place.afterPartner .loop direction ⟨behind, c :: ahead⟩ with
        | none => rfl
        | some place => rfl
      | none =>
        have hsize := m.size_perform instruction
        generalize m.perform instruction = ending at hsize ⊢
        obtain ⟨result, n⟩ := ending
        cases result with
        | error fault => exact hsize
        | ok _ => exact hsize

/-! ### Whole runs -/

theorem size_run {fuel : Nat} {place : Place Char} {halt : Halt}
    (h : m.run fuel place = some halt) : halt.machine.tape.size = m.tape.size := by
  induction fuel generalizing m place with
  | zero => cases h
  | succ fuel ih =>
    have hsize := m.size_step place
    rw [run] at h
    cases hstep : m.step place with
    | next place' m' =>
      rw [hstep] at h hsize
      exact (ih h).trans hsize
    | halt halt' =>
      rw [hstep] at h hsize
      cases h
      exact hsize

end Machine

/-- No configuration that is reached has another number of cells. -/
theorem Configuration.Reaches.size_tape {s t : Configuration} (h : s.Reaches t) :
    t.machine.tape.size = s.machine.tape.size := by
  induction h with
  | refl => rfl
  | @tail t u _ hlead ih =>
    have hsize := t.machine.size_step t.place
    rw [hlead] at hsize
    exact hsize.trans ih

variable {fuel start : Nat} {tape : Tape} {input : Input} {sink : Sink} {halt : Halt}

lemma size_execute {code : List Char} (h : execute fuel code start tape input sink = some halt) :
    halt.machine.tape.size = tape.size := by
  unfold execute at h
  dsimp only at h
  cases hcode : Delimiters.loop.firstUnmatched (minimize code) with
  | some unmatched =>
    rw [hcode] at h
    cases h
    rfl
  | none =>
    rw [hcode] at h
    exact Machine.size_run h

lemma size_compileAndRun {dialect : Dialect} {source : List Char}
    (h : dialect.compileAndRun fuel source start tape input sink = some halt) :
    halt.machine.tape.size = tape.size := by
  unfold Dialect.compileAndRun at h
  cases hcode : dialect.compile source with
  | error fault =>
    rw [hcode] at h
    cases h
    rfl
  | ok code =>
    rw [hcode] at h
    exact size_execute h

end TapeTower
