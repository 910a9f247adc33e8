import TapeTower.Proofs.Cancellation
import TapeTower.Proofs.Machine.Faults
import TapeTower.Proofs.Partner

/-!
# Programs that are refused

The loop brackets of a program are checked after it is minimized, and what is reported is a place
in the minimized text. Minimizing takes no bracket away and keeps them in order. So a program is
refused if and only if it holds, as it is written, a loop bracket without a partner, and what is
reported is the first such bracket, in the place where it stands in the minimized text
(`execute_unmatchedDelimiter_iff`).
-/

namespace TapeTower

open Delimiters

variable {fuel : Nat} {code : List Char} {start : Nat} {tape : Tape} {input : Input} {sink : Sink}
  {delimiter : Char} {position : Nat}

/-- A fault for a bracket is the report of the check, and no run comes to one. -/
lemma exists_execute_iff_firstUnmatched :
    (∃ machine, execute fuel code start tape input sink =
        some ⟨.error (.unmatchedDelimiter delimiter position), machine⟩) ↔
      ∃ side j, loop.firstUnmatched (minimize code) = some (side, j) ∧
        delimiter = loop.symbol side ∧ position = Text.byteLength ((minimize code).take j) := by
  rcases hcode : loop.firstUnmatched (minimize code) with _ | ⟨side, j⟩
  · refine iff_of_false ?_ (by simp)
    rintro ⟨machine, h⟩
    obtain ⟨side, j, _, hsome, -⟩ := exists_firstUnmatched_of_execute h rfl (by simp [Fault.OfRun])
    rw [hcode] at hsome
    cases hsome
  · simp only [execute, hcode]
    constructor
    · rintro ⟨machine, h⟩
      cases h
      exact ⟨side, j, rfl, rfl, rfl⟩
    · rintro ⟨_, _, hsame, rfl, rfl⟩
      cases hsame
      exact ⟨_, rfl⟩

/-- `execute` ends in a fault for a bracket if and only if the program has a loop bracket without a
partner. It reports the first one, and the byte at which this same bracket, counted among all loop
brackets, stands in the minimized program. -/
theorem execute_unmatchedDelimiter_iff (fuel : Nat) (code : List Char) (start : Nat) (tape : Tape)
    (input : Input) (sink : Sink) :
    ((∃ delimiter position machine, execute fuel code start tape input sink =
        some ⟨.error (.unmatchedDelimiter delimiter position), machine⟩) ↔
      ∃ i, loop.Unpartnered code i) ∧
    ∀ delimiter position, (∃ machine, execute fuel code start tape input sink =
        some ⟨.error (.unmatchedDelimiter delimiter position), machine⟩) ↔
      ∃ i j, IsLeast {k | loop.Unpartnered code k} i ∧ code[i]? = some delimiter ∧
        (minimize code)[j]? = some delimiter ∧
        loop.ordinal (minimize code) j = loop.ordinal code i ∧
        position = Text.byteLength ((minimize code).take j) := by
  have hd : loop.opening ≠ loop.closing := by decide
  have hskeleton : loop.skeleton code = loop.skeleton (minimize code) :=
    (skeleton_minimize code).symm
  have hreport : ∀ side j, loop.firstUnmatched (minimize code) = some (side, j) ↔ _ :=
    fun _ _ => firstUnmatched_eq_some_iff_of_skeleton_eq hd hskeleton
  constructor
  · constructor
    · rintro ⟨delimiter, position, h⟩
      obtain ⟨side, j, hfirst, -⟩ := exists_execute_iff_firstUnmatched.mp h
      obtain ⟨i, hleast, -⟩ := (hreport side j).mp hfirst
      exact ⟨i, hleast.1⟩
    · rintro ⟨i, hi⟩
      rcases hcode : loop.firstUnmatched (minimize code) with _ | ⟨side, j⟩
      · have hnone := (firstUnmatched_eq_none_iff_of_skeleton_eq hskeleton).mpr hcode
        exact absurd hi ((firstUnmatched_eq_none_iff_forall hd).mp hnone i)
      · exact ⟨_, _, exists_execute_iff_firstUnmatched.mpr ⟨side, j, hcode, rfl, rfl⟩⟩
  · intro delimiter position
    rw [exists_execute_iff_firstUnmatched]
    constructor
    · rintro ⟨side, j, hfirst, rfl, hposition⟩
      obtain ⟨i, hleast, hi, hj, hordinal⟩ := (hreport side j).mp hfirst
      exact ⟨i, j, hleast, hi, hj, hordinal, hposition⟩
    · rintro ⟨i, j, hleast, hi, hj, hordinal, hposition⟩
      obtain ⟨side, hside⟩ := hleast.1.exists_symbol
      obtain rfl := Option.some.inj (hi.symm.trans hside)
      exact ⟨side, j, (hreport side j).mpr ⟨i, hleast, hi, hj, hordinal⟩, rfl, hposition⟩

/-- The bracket that is never closed stands at byte 4 of the program and, once the changes of the
cell in front of it have been cancelled, at byte 2. -/
example : ∃ machine, execute 0 "é+-[[-]".toList 0 (Tape.blank 1) [] Sink.unlimited =
    some ⟨.error (.unmatchedDelimiter '[' 2), machine⟩ := ⟨_, rfl⟩

end TapeTower
