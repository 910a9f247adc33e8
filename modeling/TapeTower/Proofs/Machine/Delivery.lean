import TapeTower.Proofs.Input.Delivery
import TapeTower.Proofs.Machine.Simulation

/-!
# Machines with inputs that are alike

A machine asks its input for characters and for nothing else, so that an instruction has the same
effect on two machines whose inputs are alike (`Machine.Alike.perform`). They end together, and
what they leave is alike again (`Machine.Alike.run`, `Input.Alike.execute`).
-/

namespace TapeTower

/-! ### What may differ -/

/-- Machines that differ at most in how their inputs are delivered. -/
structure Machine.Alike (m m' : Machine) : Prop where
  tape : m.tape = m'.tape
  input : m.input.Alike m'.input
  sink : m.sink = m'.sink
  printed : m.printed = m'.printed

/-- Ends with the same result that leave machines which are alike. -/
structure Halt.Alike (halt halt' : Halt) : Prop where
  result : halt.result = halt'.result
  machine : halt.machine.Alike halt'.machine

/-! ### Instructions and runs -/

namespace Machine.Alike

variable {m m' : Machine}

lemma eq_with_input (h : m.Alike m') : m' = { m with input := m'.input } := by
  obtain ⟨tape, input, sink, printed⟩ := m
  obtain ⟨tape', input', sink', printed'⟩ := m'
  obtain ⟨rfl, -, rfl, rfl⟩ := h
  rfl

lemma with_input {a b : Input} (h : a.Alike b) (m : Machine) :
    Alike { m with input := a } { m with input := b } :=
  ⟨rfl, h, rfl, rfl⟩

lemma flush_eq (h : m.Alike m') : m'.flush = m.flush := by
  rw [h.eq_with_input]
  rfl

lemma jump?_eq (h : m.Alike m') (instruction : Instruction) :
    m'.jump? instruction = m.jump? instruction := by
  rw [h.eq_with_input]
  cases instruction <;> rfl

lemma read (h : m.Alike m') : Ending.Rel Alike m.read m'.read := by
  rw [Machine.read, Machine.read, h.flush_eq]
  cases m.flush with
  | error fault => exact ⟨rfl, h⟩
  | ok _ =>
    obtain ⟨result, rest, rest', hread, hread', hrest⟩ := h.input.exists_readCharacter
    rw [h.eq_with_input]
    simp only [hread, hread']
    cases result with
    | error fault => exact ⟨rfl, with_input hrest m⟩
    | ok code => exact ⟨rfl, with_input hrest { m with tape := _ }⟩

lemma print (h : m.Alike m') : Ending.Rel Alike m.print m'.print := by
  rw [h.eq_with_input]
  simp only [Machine.print]
  cases m.sink.write? (printedChar m.tape.current) with
  | none => exact ⟨rfl, with_input h.input m⟩
  | some sink => exact ⟨rfl, with_input h.input { m with sink, printed := _ }⟩

/-- An instruction has the same effect. -/
lemma perform (h : m.Alike m') (instruction : Instruction) :
    Ending.Rel Alike (m.perform instruction) (m'.perform instruction) := by
  have hunread : ∀ tape : Tape, Alike { m with tape } { m' with tape } :=
    fun tape => ⟨rfl, h.input, h.sink, h.printed⟩
  cases instruction with
  | read => exact h.read
  | print => exact h.print
  | beginLoop => exact ⟨rfl, h⟩
  | endLoop => exact ⟨rfl, h⟩
  | _ =>
    simp only [Machine.perform, ← h.tape]
    exact ⟨rfl, hunread _⟩

lemma halt (h : m.Alike m') :
    Halt.Alike (Ending.halt (.ok (), m)) (Ending.halt (.ok (), m')) := by
  simp only [Ending.halt, h.flush_eq, h.printed]
  cases m.flush with
  | error fault => exact ⟨rfl, h⟩
  | ok _ => exact ⟨rfl, h⟩

/-- A run is the same, and ends alike if it ends. -/
theorem run (h : m.Alike m') (fuel : Nat) (place : Place Char) :
    Option.Rel Halt.Alike (m.run fuel place) (m'.run fuel place) := by
  refine Progress.Rel.run (fun n n' place hn => ?_) h fuel place
  exact .step hn (fun _ => hn.halt) (fun _ _ _ hleft => ⟨rfl, hleft⟩) hn.jump?_eq
    (fun instruction _ => hn.perform instruction)

end Machine.Alike

/-- A program ends alike on inputs that are alike. -/
theorem Input.Alike.execute {a b : Input} (h : a.Alike b) (fuel : Nat) (code : List Char)
    (start : Nat) (tape : Tape) (sink : Sink) :
    Option.Rel Halt.Alike (execute fuel code start tape a sink)
      (execute fuel code start tape b sink) := by
  have hm : Machine.Alike ⟨tape, a, sink, ""⟩ ⟨tape, b, sink, ""⟩ := ⟨rfl, h, rfl, rfl⟩
  unfold TapeTower.execute
  dsimp only
  cases Delimiters.loop.firstUnmatched (minimize code) with
  | some unmatched => exact .some ⟨rfl, hm⟩
  | none => exact hm.run fuel _

end TapeTower
