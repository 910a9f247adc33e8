import TapeTower.Proofs.Machine.Faults
import TapeTower.Proofs.Machine.Minimization

/-!
# The meaning of programs

`execute` minimizes a program, checks its loop brackets and then runs the machine.
Here this is compared with two simpler accounts of the same program.

* The structured runs of the minimized text, which know loops but no program counter:
  they end as `execute` does (`exists_execute_iff_run`). Only an input that is used up
  and a failure of input or output can stop them.
* The machine on the text as it was written: it ends as `execute` does if no move is
  stopped by the end of the tape in a mixed run of moves
  (`exists_execute_iff_run_of_clear`). There is no such condition if nothing but the changes
  of a cell is cancelled (`exists_run_cancel_change_iff`).
-/

namespace TapeTower

open Opposites

/-! ### Faults of a run -/

/-- Every fault of a structured run is one that a running program may meet. -/
theorem Program.Run.ofRun {p : Program} {m : Machine} {e : Ending} (h : p.Run m e)
    {fault : Fault} (he : e.1 = .error fault) : fault.OfRun := by
  induction h with
  | straight s m => exact Machine.ofRun_actAll (Prod.ext he rfl)
  | fault hbefore =>
    cases he
    exact Machine.ofRun_actAll hbefore
  | skip _ _ _ ih => exact ih he
  | again _ _ _ _ _ ih => exact ih he
  | faultInside _ _ _ ih =>
    cases he
    exact ih rfl

/-! ### Execution -/

/-- The place at byte zero is the one in front of the text. -/
lemma Place.atByte_zero (text : List Char) : Place.atByte text 0 = ⟨[], text⟩ := by
  rw [atByte, skipBytes]

/-- `execute` ends as the structured runs of the minimized program do. -/
lemma exists_execute_iff_run {code : List Char} {p : Program} (hp : p.text = minimize code)
    {tape : Tape} {input : Input} {sink : Sink} {halt : Halt} :
    (∃ fuel, execute fuel code 0 tape input sink = some halt) ↔
      ∃ e, p.Run ⟨tape, input, sink, ""⟩ e ∧ halt = Ending.halt e := by
  rw [← Program.exists_machine_run_iff, hp]
  have hcode : Delimiters.loop.firstUnmatched (minimize code) = none := by
    rw [← hp]
    exact p.firstUnmatched_text
  simp only [execute_eq_run hcode, Place.atByte_zero]

/-- The minimized text of a program whose loop brackets are then partnered is that of a
structured program, and on every tape, input and sink `execute` ends exactly as the
structured run does: with the same result, the same tape, the same output and the same
input left. -/
theorem forall_program_exists_execute_iff {code : List Char}
    (hcode : Delimiters.loop.firstUnmatched (minimize code) = none) :
    (∃ p : Program, p.text = minimize code) ∧
      ∀ p : Program, p.text = minimize code → ∀ (tape : Tape) (input : Input) (sink : Sink),
        (∀ halt, (∃ fuel, execute fuel code 0 tape input sink = some halt) ↔
          ∃ e, p.Run ⟨tape, input, sink, ""⟩ e ∧ halt = Ending.halt e) ∧
        ∀ fault m, p.Run ⟨tape, input, sink, ""⟩ (.error fault, m) →
          fault = .inputExhausted ∨ ∃ message, fault = .io message := by
  refine ⟨Program.exists_text_eq_of_firstUnmatched hcode, ?_⟩
  intro p hp tape input sink
  refine ⟨fun halt => exists_execute_iff_run hp, ?_⟩
  intro fault m hrun
  exact hrun.ofRun rfl

/-- A program that counts its cell down has a structure, and runs by it. -/
theorem forall_program_exists_execute_iff_countdown :
    Delimiters.loop.firstUnmatched (minimize "+-,[->+<]".toList) = none ∧
      ∃ p : Program, p.text = minimize "+-,[->+<]".toList ∧
        ∀ halt, (∃ fuel, execute fuel "+-,[->+<]".toList 0 (Tape.blank 2) (Input.ofBytes [7])
          Sink.unlimited = some halt) ↔
          ∃ e, p.Run ⟨Tape.blank 2, Input.ofBytes [7], Sink.unlimited, ""⟩ e ∧
            halt = Ending.halt e := by
  have hcode : Delimiters.loop.firstUnmatched (minimize "+-,[->+<]".toList) = none := by decide
  obtain ⟨⟨p, hp⟩, hrun⟩ := forall_program_exists_execute_iff hcode
  exact ⟨hcode, p, hp, (hrun p hp _ _ _).1⟩

/-! ### The text as it was written -/

/-- `execute` ends as the structured runs of the whole text do, if the run on this text is
clear. -/
lemma exists_execute_iff_run_of_clear {p : Program} {tape : Tape} {input : Input} {sink : Sink}
    (hclear : (Configuration.start p.text ⟨tape, input, sink, ""⟩).Clear) {halt : Halt} :
    (∃ fuel, execute fuel p.text 0 tape input sink = some halt) ↔
      ∃ e, p.Run ⟨tape, input, sink, ""⟩ e ∧ halt = Ending.halt e := by
  rw [exists_execute_iff_run p.text_minimize]
  simp only [Program.run_minimize_iff hclear]

/-- The machine on a text as it was written and `execute`, which minimizes the text, end in
the same way or both do not end, unless the end of the tape stops a move in a mixed run of
moves. -/
theorem exists_run_iff_exists_execute {code : List Char} {tape : Tape} {input : Input}
    {sink : Sink} (hcode : Delimiters.loop.firstUnmatched code = none)
    (hclear : ∀ s, (Configuration.start code ⟨tape, input, sink, ""⟩).Reaches s → ¬ s.Stopped)
    (halt : Halt) :
    (∃ fuel, Machine.run fuel ⟨[], code⟩ ⟨tape, input, sink, ""⟩ = some halt) ↔
      ∃ fuel, execute fuel code 0 tape input sink = some halt := by
  obtain ⟨p, rfl⟩ := Program.exists_text_eq_of_firstUnmatched hcode
  rw [exists_execute_iff_run_of_clear hclear, Program.exists_machine_run_iff]

/-- On two cells a move to the right and back is not stopped, and may be cancelled. -/
theorem exists_run_iff_exists_execute_back_and_forth :
    Delimiters.loop.firstUnmatched "><".toList = none ∧
      (∀ s, (Configuration.start "><".toList
        ⟨Tape.blank 2, [], Sink.unlimited, ""⟩).Reaches s → ¬ s.Stopped) ∧
      ∀ halt, (∃ fuel, Machine.run fuel ⟨[], "><".toList⟩
        ⟨Tape.blank 2, [], Sink.unlimited, ""⟩ = some halt) ↔
        ∃ fuel, execute fuel "><".toList 0 (Tape.blank 2) [] Sink.unlimited = some halt := by
  have hcode : Delimiters.loop.firstUnmatched "><".toList = none := by decide
  have hclear : ∀ s, (Configuration.start "><".toList
      ⟨Tape.blank 2, [], Sink.unlimited, ""⟩).Reaches s → ¬ s.Stopped := by
    intro s hs
    rcases hs.of_leads (t := ⟨⟨['>'], ['<']⟩, ⟨_, [], Sink.unlimited, ""⟩⟩) rfl with rfl | hs
    · rintro ⟨c, hc, ⟨rfl, -⟩ | ⟨rfl, hlast⟩, -⟩
      · cases hc
      · exact absurd hlast (by decide)
    · rcases hs.of_leads (t := ⟨⟨['<', '>'], []⟩, ⟨_, [], Sink.unlimited, ""⟩⟩) rfl with rfl | hs
      · rintro ⟨c, hc, ⟨rfl, hfirst⟩ | ⟨rfl, -⟩, -⟩
        · exact absurd hfirst (by decide)
        · cases hc
      · rcases hs.cases_head with rfl | ⟨t, hlead, -⟩
        · simp [Configuration.Stopped]
        · cases hlead
  exact ⟨hcode, hclear, exists_run_iff_exists_execute hcode hclear⟩

/-! ### Changes that are cancelled alone -/

/-- A straight text whose changes of a cell are cancelled. -/
def Straight.cancelChange (s : Straight) : Straight :=
  ⟨change.cancel s.1, fun c hc => s.2 c (mem_of_mem_cancel change_ne hc)⟩

/-- The machine on a text and on the text whose changes of a cell are cancelled end in the same
way or both do not end, wherever the cursor is stopped. -/
theorem exists_run_cancel_change_iff {code : List Char}
    (hcode : Delimiters.loop.firstUnmatched code = none) (m : Machine) (halt : Halt) :
    (∃ fuel, m.run fuel ⟨[], change.cancel code⟩ = some halt) ↔
      ∃ fuel, m.run fuel ⟨[], code⟩ = some halt := by
  obtain ⟨p, rfl⟩ := Program.exists_text_eq_of_firstUnmatched hcode
  have htext : (p.map Straight.cancelChange).text = change.cancel p.text := by
    refine Program.text_map (fun _ => rfl) (fun s t c hc => cancel_append_cons ?_ ?_ s t) p <;>
      rcases hc with rfl | rfl <;> decide
  have hrelates : Exchange.sameEffect.Relates p (p.map Straight.cancelChange) :=
    Exchange.relates_map (fun s m => m.actAll_cancel_change s.1) p
  have hkeeps : Exchange.sameEffect.Keeps p m := .of_start fun _ _ => not_false
  rw [← htext, Program.exists_machine_run_iff, Program.exists_machine_run_iff]
  simp only [Exchange.run_iff hrelates hkeeps]

/-- The moves that come together when the changes of `<+->+[--+>]` are cancelled stay in place, and
where the end of the tape stops the first one, the second still leads to the other cell. -/
theorem exists_run_cancel_change_iff_stopped :
    change.cancel "<+->+[--+>]".toList = "<>+[->]".toList ∧
      Delimiters.loop.firstUnmatched "<+->+[--+>]".toList = none ∧
      ∃ halt, (∃ fuel, Machine.run fuel ⟨[], "<>+[->]".toList⟩
        ⟨Tape.blank 2, [], Sink.unlimited, ""⟩ = some halt) ∧
        halt.result = .ok "" ∧ halt.machine.tape.cursor = 1 := by
  have hcancel : change.cancel "<+->+[--+>]".toList = "<>+[->]".toList := by decide
  have hcode : Delimiters.loop.firstUnmatched "<+->+[--+>]".toList = none := by decide
  have hrun := (exists_run_cancel_change_iff hcode
    ⟨Tape.blank 2, [], Sink.unlimited, ""⟩ _).mpr ⟨13, rfl⟩
  rw [hcancel] at hrun
  exact ⟨hcancel, hcode, _, hrun, rfl, rfl⟩

/-! ### Programs whose moves are free -/

/-- The guard that the end of the tape stops no move. -/
def Guard.free : Guard where
  Allows c m := ¬ m.Clamps c
  opening m := by simp [Machine.Clamps]
  closing m := by simp [Machine.Clamps]

/-- If a whole program is carried out and no move is stopped, then its run comes to no move that
is. -/
lemma Carries.allowed {code : List Char} {m : Machine} {e : Ending}
    (h : Carries .free code m e) {s : Configuration}
    (hs : (Configuration.start code m).Reaches s) : s.Allowed .free := by
  obtain ⟨u, hreach, hallowed, hhalt⟩ := h.exists_haltsWith
  exact Configuration.Allowed.of_reachesBy hallowed hhalt hreach hs

/-- A run on which no move is stopped at all is clear. -/
lemma Carries.clear {code : List Char} {m : Machine} {e : Ending}
    (h : Carries .free code m e) : (Configuration.start code m).Clear := by
  rintro s hs ⟨c, hc, hclamps, -⟩
  exact h.allowed hs c hc hclamps

/-- If a text is carried out and no move is stopped, then `execute` ends with its outcome. -/
theorem exists_execute_of_carries {code : List Char} (hcode : Delimiters.loop.Balanced code)
    {tape : Tape} {input : Input} {sink : Sink} {e : Ending}
    (h : Carries .free code ⟨tape, input, sink, ""⟩ e) :
    ∃ fuel, execute fuel code 0 tape input sink = some (Ending.halt e) := by
  have hclear := h.clear
  obtain ⟨u, hreach, -, hhalt⟩ := h.exists_haltsWith
  obtain ⟨p, rfl⟩ := Program.exists_text_eq hcode
  rw [exists_execute_iff_run_of_clear hclear, ← Program.exists_machine_run_iff]
  exact Configuration.exists_run_iff.mpr ⟨u, hreach.reaches, hhalt⟩

end TapeTower
