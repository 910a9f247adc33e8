import TapeTower.Proofs.Depth
import TapeTower.Proofs.Machine.Execution

/-!
# Programs that end alike

Programs that are written differently may report the same unmatched bracket at different
places. Apart from this, `EndsAs` tells all that there is to tell of the end of a program: the
result, the tape with its cursor, the output and the input that is left. That two programs end
alike also says that none of them ends unless the other one does.

Programs with the same loop brackets are refused alike, so that it is enough to compare them
when the brackets are partnered (`endsAs_iff_of_skeleton_eq`).
-/

namespace TapeTower

/-- The fault, wherever in the text it was found. -/
def Fault.withoutPosition : Fault → Fault
  | .unmatchedDelimiter delimiter _ => .unmatchedDelimiter delimiter 0
  | fault => fault

/-- The end of a run, wherever in the text its fault was found. -/
def Halt.withoutPosition (halt : Halt) : Halt :=
  ⟨halt.result.mapError Fault.withoutPosition, halt.machine⟩

/-- `execute` ends like this, wherever in the text the fault is found that it may end with. -/
def EndsAs (code : List Char) (tape : Tape) (input : Input) (sink : Sink) (halt : Halt) : Prop :=
  ∃ fuel, (execute fuel code 0 tape input sink).map Halt.withoutPosition = some halt

/-- The program is not refused, and its run comes through this configuration. -/
def Visits (code : List Char) (tape : Tape) (input : Input) (sink : Sink) (s : Configuration) :
    Prop :=
  Delimiters.loop.firstUnmatched (minimize code) = none ∧
    (Configuration.start (minimize code) ⟨tape, input, sink, ""⟩).Reaches s

variable {code code' : List Char} {tape : Tape} {input : Input} {sink : Sink} {halt : Halt}

lemma endsAs_iff_exists :
    EndsAs code tape input sink halt ↔
      ∃ halt', (∃ fuel, execute fuel code 0 tape input sink = some halt') ∧
        halt'.withoutPosition = halt := by
  unfold EndsAs
  simp only [Option.map_eq_some_iff]
  exact exists_comm.trans (exists_congr fun _ => exists_and_right)

/-- A program whose brackets are partnered ends as its structured runs do. -/
lemma endsAs_iff_run {p : Program} (hp : p.text = minimize code) :
    EndsAs code tape input sink halt ↔
      ∃ e, p.Run ⟨tape, input, sink, ""⟩ e ∧ (Ending.halt e).withoutPosition = halt := by
  rw [endsAs_iff_exists]
  simp only [exists_execute_iff_run hp]
  constructor
  · rintro ⟨_, ⟨e, hrun, rfl⟩, rfl⟩
    exact ⟨e, hrun, rfl⟩
  · rintro ⟨e, hrun, rfl⟩
    exact ⟨_, ⟨e, hrun, rfl⟩, rfl⟩

/-- A program of which minimizing leaves nothing changes nothing. -/
lemma EndsAs.machine_eq (h : EndsAs code tape input sink halt) (hcode : minimize code = []) :
    halt.machine = ⟨tape, input, sink, ""⟩ := by
  have hp : (Program.straight .empty).text = minimize code := hcode.symm
  obtain ⟨e, hrun, rfl⟩ := (endsAs_iff_run hp).mp h
  cases hrun
  cases hflush : Machine.flush ⟨tape, input, sink, ""⟩ <;>
    simp [Straight.empty, Machine.actAll, Ending.halt, hflush, Halt.withoutPosition]

/-- A program that is refused ends at once, with the side of the bracket without a partner. -/
lemma endsAs_iff_of_firstUnmatched {side : Side} {i : Nat}
    (hcode : Delimiters.loop.firstUnmatched (minimize code) = some (side, i)) :
    EndsAs code tape input sink halt ↔
      ⟨.error (.unmatchedDelimiter (Delimiters.loop.symbol side) 0), ⟨tape, input, sink, ""⟩⟩ =
        halt := by
  have hexecute : ∀ fuel, (execute fuel code 0 tape input sink).map Halt.withoutPosition =
      some ⟨.error (.unmatchedDelimiter (Delimiters.loop.symbol side) 0),
        ⟨tape, input, sink, ""⟩⟩ := by
    intro fuel
    simp only [execute, hcode]
    rfl
  constructor
  · rintro ⟨fuel, h⟩
    exact Option.some.inj ((hexecute fuel).symm.trans h)
  · rintro rfl
    exact ⟨0, hexecute 0⟩

/-- Programs with the same loop brackets end alike, if they do so when the brackets are
partnered. -/
theorem endsAs_iff_of_skeleton_eq
    (hskeleton : Delimiters.loop.skeleton code = Delimiters.loop.skeleton code')
    (h : Delimiters.loop.Balanced code → Delimiters.loop.Balanced code' →
      ∀ halt, EndsAs code tape input sink halt ↔ EndsAs code' tape input sink halt) :
    EndsAs code tape input sink halt ↔ EndsAs code' tape input sink halt := by
  have hminimized : Delimiters.loop.skeleton (minimize code) =
      Delimiters.loop.skeleton (minimize code') := by
    rw [skeleton_minimize, skeleton_minimize, hskeleton]
  rcases hcode : Delimiters.loop.firstUnmatched (minimize code) with _ | ⟨side, i⟩
  · have hbalanced : Delimiters.loop.Balanced code :=
      (Delimiters.balanced_iff_of_skeleton_eq (by decide) (skeleton_minimize code)).mp
        ((Delimiters.firstUnmatched_eq_none_iff (by decide)).mp hcode)
    exact h hbalanced
      ((Delimiters.balanced_iff_of_skeleton_eq (by decide) hskeleton).mp hbalanced) halt
  · obtain ⟨j, hcode', -⟩ :=
      Delimiters.exists_firstUnmatched_of_skeleton_eq (by decide) hminimized hcode
    rw [endsAs_iff_of_firstUnmatched hcode, endsAs_iff_of_firstUnmatched hcode']

/-- Programs end alike if straight parts are exchanged and the run of the first one keeps clear
of what the exchange forbids. -/
lemma endsAs_iff_of_relates {x : Exchange} {p q : Program} (hp : p.text = minimize code)
    (hq : q.text = minimize code') (hpq : x.Relates p q)
    (h : ∀ s, Visits code tape input sink s → ¬ x.Forbids s) :
    EndsAs code' tape input sink halt ↔ EndsAs code tape input sink halt := by
  have hcode : Delimiters.loop.firstUnmatched (minimize code) = none := by
    rw [← hp]
    exact p.firstUnmatched_text
  have hkeeps : x.Keeps p ⟨tape, input, sink, ""⟩ := by
    refine .of_start fun s hs => h s ⟨hcode, ?_⟩
    rwa [← hp]
  simp only [endsAs_iff_run hp, endsAs_iff_run hq, Exchange.run_iff hpq hkeeps]

end TapeTower
