import TapeTower.Dialect
import TapeTower.Proofs.Machine.Faults

/-!
# Failures of a source text

A source text that is compiled and run fails in one of two ways. Either it is refused: it
cannot be lowered, or a loop bracket of the minimized program has no partner. Then nothing
was done. Or it is running and meets the end of its input or a failure of input or output.
No other fault is met by a program once it runs.
-/

namespace TapeTower.Dialect

/-- If a source text fails for another reason than its input being used up or input or output
failing, then the tape, the input and the sink are as they were. And whatever a program whose
loop brackets are partnered reaches, from any start, it is not stopped there by a bracket. -/
theorem machine_of_compileAndRun :
    (∀ (dialect : Dialect) (fuel : Nat) (source : List Char) (start : Nat) (tape : Tape)
      (input : Input) (sink : Sink) (halt : Halt) (fault : Fault),
      dialect.compileAndRun fuel source start tape input sink = some halt →
      halt.result = .error fault → fault ≠ .inputExhausted → (∀ message, fault ≠ .io message) →
      halt.machine = ⟨tape, input, sink, ""⟩) ∧
    ∀ (code : List Char) (start : Nat) (tape : Tape) (input : Input) (sink : Sink),
      Delimiters.loop.firstUnmatched (minimize code) = none →
      ∀ s : Configuration,
        Configuration.Reaches ⟨Place.atByte (minimize code) start, ⟨tape, input, sink, ""⟩⟩ s →
        ∀ halt, s.HaltsWith halt → ∀ delimiter position,
          halt.result ≠ .error (.unmatchedDelimiter delimiter position) := by
  constructor
  · intro dialect fuel source start tape input sink halt fault h hfault hinput hio
    unfold compileAndRun at h
    split at h
    · refine machine_of_execute h hfault ?_
      rintro (rfl | ⟨message, rfl⟩)
      · exact hinput rfl
      · exact hio message rfl
    · cases h
      rfl
  · intro code start tape input sink hcode s hs halt hhalt delimiter position hfault
    rcases ofRun_of_reaches_atByte hcode hs hhalt hfault with h | ⟨message, h⟩
    · cases h
    · cases h

/-- A bracket that is never closed stops a program before it adds anything. Started at the end
of a loop, a program jumps back into it and ends well. -/
theorem machine_of_compileAndRun_refused :
    (∃ halt, base.compileAndRun 9 "+[".toList 0 (Tape.blank 2) (Input.ofBytes [7]) Sink.unlimited =
        some halt ∧ halt.result = .error (.unmatchedDelimiter '[' 1) ∧
        halt.machine = ⟨Tape.blank 2, Input.ofBytes [7], Sink.unlimited, ""⟩) ∧
      Delimiters.loop.firstUnmatched (minimize "[>]".toList) = none ∧
      ∃ s halt, Configuration.Reaches ⟨Place.atByte (minimize "[>]".toList) 2,
          ⟨(Tape.blank 2).setCurrent 1, [], Sink.unlimited, ""⟩⟩ s ∧ s.HaltsWith halt ∧
        s.machine.tape.cursor = 1 ∧
        ∀ delimiter position, halt.result ≠ .error (.unmatchedDelimiter delimiter position) := by
  obtain ⟨hrefused, hrunning⟩ := machine_of_compileAndRun
  have hcode : Delimiters.loop.firstUnmatched (minimize "[>]".toList) = none := by decide
  have hback : Configuration.Leads ⟨Place.atByte (minimize "[>]".toList) 2,
      ⟨(Tape.blank 2).setCurrent 1, [], Sink.unlimited, ""⟩⟩
      ⟨⟨['['], ['>', ']']⟩, ⟨(Tape.blank 2).setCurrent 1, [], Sink.unlimited, ""⟩⟩ := rfl
  have hmove : Configuration.Leads
      ⟨⟨['['], ['>', ']']⟩, ⟨(Tape.blank 2).setCurrent 1, [], Sink.unlimited, ""⟩⟩
      ⟨⟨['>', '['], [']']⟩, ⟨((Tape.blank 2).setCurrent 1).moveRight, [], Sink.unlimited, ""⟩⟩ :=
    rfl
  have hpass : Configuration.Leads
      ⟨⟨['>', '['], [']']⟩, ⟨((Tape.blank 2).setCurrent 1).moveRight, [], Sink.unlimited, ""⟩⟩
      ⟨⟨[']', '>', '['], []⟩, ⟨((Tape.blank 2).setCurrent 1).moveRight, [], Sink.unlimited, ""⟩⟩ :=
    rfl
  have hreach := Relation.ReflTransGen.head hback (.head hmove (.single hpass))
  refine ⟨⟨_, rfl, rfl, ?_⟩, hcode, _, _, hreach, rfl, rfl, ?_⟩
  · exact hrefused base 9 "+[".toList 0 (Tape.blank 2) (Input.ofBytes [7]) Sink.unlimited _
      (.unmatchedDelimiter '[' 1) rfl rfl (by simp) (by simp)
  · exact hrunning "[>]".toList 2 _ _ _ hcode _ hreach _ rfl

end TapeTower.Dialect
