import TapeTower.Proofs.Machine.Bounds
import TapeTower.Proofs.Machine.Execution
import TapeTower.Proofs.Machine.Simulation
import TapeTower.Proofs.Machine.Transfer

/-!
# Runs on a copy of a tape

A tape with more cells in front of it and behind it is a tape on which every instruction does the
same to the inner cells and nothing to the outer ones, as long as no move is stopped: a move that
an end of the inner tape stops would lead out of it (`Machine.perform_surround`). So a whole run
that comes to no such move is the run of the inner tape, with the outer cells around it
(`execute_surround`).

A tape that holds a copy of another one is that one with cells around it (`Holds.exists_surround`),
which says what a run does to the tape from what it does to the copy (`rel_execute_of_holds`).
-/

namespace TapeTower

namespace Tape

variable {t whole : Tape} {k : Nat}

/-! ### Cells around a tape -/

/-- The tape with some cells in front of it and some behind it. -/
def surround (before after : Array UInt32) (t : Tape) : Tape where
  cells := before ++ t.cells ++ after
  cursor := before.size + t.cursor
  cursor_lt := by
    have := t.cursor_lt
    simp only [Array.size_append]
    omega

variable (before after : Array UInt32)

lemma cursor_surround : (t.surround before after).cursor = before.size + t.cursor := rfl

lemma size_surround : (t.surround before after).size = before.size + t.size + after.size := by
  simp [size, surround, Nat.add_assoc]

/-- An inner cell is a cell of the tape. -/
lemma get?_surround_inner {index : Nat} (h : index < t.size) :
    (t.surround before after).get? (before.size + index) = t.get? index := by
  unfold size at h
  simp only [get?, surround]
  rw [Array.getElem?_append_left (by simp; omega), Array.getElem?_append_right (by omega),
    Nat.add_sub_cancel_left]

/-- An outer cell has nothing to do with the tape. -/
lemma get?_surround_outer {u : Tape} (hsize : u.size = t.size) {index : Nat}
    (h : index < before.size ∨ before.size + t.size ≤ index) :
    (u.surround before after).get? index = (t.surround before after).get? index := by
  unfold size at hsize h
  simp only [get?, surround]
  rcases h with h | h
  · rw [Array.append_assoc, Array.append_assoc, Array.getElem?_append_left h,
      Array.getElem?_append_left h]
  · rw [Array.getElem?_append_right (by simp; omega), Array.getElem?_append_right (by simp; omega),
      Array.size_append, Array.size_append, hsize]

@[simp] lemma current_surround : (t.surround before after).current = t.current := by
  apply current_eq_of_get?
  rw [cursor_surround, get?_surround_inner before after t.cursor_lt_size, get?_cursor]

lemma setCurrent_surround (v : UInt32) :
    (t.surround before after).setCurrent v = (t.setCurrent v).surround before after := by
  refine ext_get? rfl fun index => ?_
  rw [get?_setCurrent, cursor_surround]
  by_cases hinner : before.size ≤ index ∧ index < before.size + t.size
  · obtain ⟨inner, rfl⟩ := Nat.exists_eq_add_of_le hinner.1
    have hlt : inner < t.size := by omega
    rw [get?_surround_inner before after hlt, get?_surround_inner before after (by simpa using hlt),
      get?_setCurrent]
    simp only [Nat.add_left_cancel_iff]
  · have houter : index < before.size ∨ before.size + t.size ≤ index := by omega
    have hne : index ≠ before.size + t.cursor := by
      have := t.cursor_lt_size
      omega
    rw [if_neg hne, get?_surround_outer before after (t.size_setCurrent v) houter]

/-- A move to the right that the end of the tape does not stop stays on the inner cells. -/
lemma moveRight_surround (h : t.cursor + 1 ≠ t.size) :
    (t.surround before after).moveRight = t.moveRight.surround before after := by
  have hlt := t.cursor_lt_size
  have hinner : t.moveRight.cursor = t.cursor + 1 := by
    rw [moveRight_eq, cursor_moveTo_of_lt _ (by omega)]
  have houter : (t.surround before after).moveRight.cursor = before.size + t.cursor + 1 := by
    rw [moveRight_eq, cursor_surround, cursor_moveTo_of_lt _ (by rw [size_surround]; omega)]
  refine ext_get? ?_ fun index => ?_
  · rw [houter, cursor_surround, hinner, Nat.add_assoc]
  · rw [moveRight_eq, moveRight_eq]
    rfl

/-- A move to the left that the beginning of the tape does not stop stays on the inner cells. -/
lemma moveLeft_surround (h : t.cursor ≠ 0) :
    (t.surround before after).moveLeft = t.moveLeft.surround before after := by
  refine ext_get? ?_ fun index => rfl
  show before.size + t.cursor - 1 = before.size + (t.cursor - 1)
  omega

/-! ### Copies -/

/-- The tape `whole` holds a copy of `t` from cell `k` on, and its cursor is on the cell of the copy
that the cursor of `t` is on. -/
structure Holds (whole : Tape) (k : Nat) (t : Tape) : Prop where
  cursor_eq : whole.cursor = k + t.cursor
  get?_eq : ∀ index < t.size, whole.get? (k + index) = t.get? index

lemma holds_surround : (t.surround before after).Holds before.size t :=
  ⟨rfl, fun _ h => get?_surround_inner before after h⟩

/-- The copy fits on the tape. -/
lemma Holds.le_size (h : whole.Holds k t) : k + t.size ≤ whole.size := by
  have hpos := t.size_pos
  have hindex : t.size - 1 < t.size := by omega
  obtain ⟨v, hv⟩ := t.exists_get?_eq_some hindex
  have hlast : whole.get? (k + (t.size - 1)) = some v := by
    rw [h.get?_eq _ (by omega), hv]
  obtain ⟨hlt, -⟩ := Array.getElem?_eq_some_iff.mp hlast
  unfold size at hlt hpos ⊢
  omega

/-- The cells of the copy are those of the copied tape. -/
lemma Holds.extract_eq (h : whole.Holds k t) :
    whole.cells.extract k (k + t.size) = t.cells := by
  have hle := h.le_size
  refine Array.ext_getElem? fun index => ?_
  rw [Array.getElem?_extract]
  split
  · exact h.get?_eq index (by omega)
  · refine (Array.getElem?_eq_none ?_).symm
    unfold size at *
    omega

/-- A tape that holds a copy is the copied tape with cells around it. -/
theorem Holds.exists_surround (h : whole.Holds k t) :
    ∃ before after, before.size = k ∧ whole = t.surround before after := by
  have hle := h.le_size
  let before := whole.cells.extract 0 k
  let after := whole.cells.extract (k + t.size) whole.cells.size
  have hbefore : before.size = k := by
    unfold size at hle
    simp only [before, Array.size_extract]
    omega
  have hcells : whole.cells = before ++ t.cells ++ after := by
    have hmax : max (k + t.size) whole.cells.size = whole.cells.size := Nat.max_eq_right hle
    rw [← h.extract_eq, Array.extract_append_extract, Nat.zero_min,
      Nat.max_eq_right (Nat.le_add_right k t.size), Array.extract_append_extract, Nat.zero_min,
      hmax]
    exact Array.extract_size.symm
  refine ⟨before, after, hbefore, ext_get? ?_ fun index => ?_⟩
  · rw [h.cursor_eq, cursor_surround, hbefore]
  · rw [get?, hcells]
    rfl

end Tape

/-- The machine with cells around its tape. -/
def Machine.surround (before after : Array UInt32) (m : Machine) : Machine :=
  { m with tape := m.tape.surround before after }

/-- How a machine fares with cells around its tape. -/
def Ending.surround (before after : Array UInt32) (e : Ending) : Ending :=
  (e.1, e.2.surround before after)

/-- The end of a run with cells around its tape. -/
def Halt.surround (before after : Array UInt32) (halt : Halt) : Halt :=
  { halt with machine := halt.machine.surround before after }

/-! ### Runs on a surrounded tape -/

namespace Machine

variable {m : Machine} (before after : Array UInt32)

lemma jump?_surround (instruction : Instruction) :
    (m.surround before after).jump? instruction = m.jump? instruction := by
  cases instruction <;> simp [jump?, surround]

lemma read_surround : (m.surround before after).read = Ending.surround before after m.read := by
  have hflush : (m.surround before after).flush = m.flush := rfl
  have hinput : (m.surround before after).input = m.input := rfl
  simp only [read, hflush, hinput]
  rcases m.flush with _ | _
  · rfl
  · rcases m.input.readCharacter with ⟨_ | code, input⟩
    · rfl
    · simp [Ending.surround, surround, Tape.setCurrent_surround]

lemma print_surround : (m.surround before after).print = Ending.surround before after m.print := by
  have hcurrent : (m.surround before after).tape.current = m.tape.current :=
    m.tape.current_surround before after
  have hsink : (m.surround before after).sink = m.sink := rfl
  simp only [print, hcurrent, hsink]
  cases m.sink.write? (printedChar m.tape.current) <;> rfl

/-- An instruction does the same to the inner cells if it is no move that their end stops. -/
theorem perform_surround {instruction : Instruction} (h : ¬ m.Clamps instruction.char) :
    (m.surround before after).perform instruction =
      Ending.surround before after (m.perform instruction) := by
  cases instruction with
  | increment =>
    simp [perform, Ending.surround, surround, Tape.increment, Tape.setCurrent_surround]
  | decrement =>
    simp [perform, Ending.surround, surround, Tape.decrement, Tape.setCurrent_surround]
  | moveLeft =>
    have hfirst : m.tape.cursor ≠ 0 := fun hcursor => h (Or.inl ⟨rfl, hcursor⟩)
    simp [perform, Ending.surround, surround, Tape.moveLeft_surround before after hfirst]
  | moveRight =>
    have hlast : m.tape.cursor + 1 ≠ m.tape.size := fun hcursor => h (Or.inr ⟨rfl, hcursor⟩)
    simp [perform, Ending.surround, surround, Tape.moveRight_surround before after hlast]
  | beginLoop => rfl
  | endLoop => rfl
  | read => exact read_surround before after
  | print => exact print_surround before after

lemma halt_surround : Ending.halt (.ok (), m.surround before after) =
    (Ending.halt (.ok (), m)).surround before after := by
  have hflush : (m.surround before after).flush = m.flush := rfl
  simp only [Ending.halt, hflush]
  cases m.flush <;> rfl

/-- A run that comes to no move that is stopped is the same with cells around the tape. -/
theorem run_surround {place : Place Char}
    (hfree : ∀ s, Configuration.Reaches ⟨place, m⟩ s → s.Allowed .free) (fuel : Nat) :
    (m.surround before after).run fuel place =
      (m.run fuel place).map (Halt.surround before after) := by
  have hrun : Option.Rel (fun halt halt' => halt' = halt.surround before after)
      (m.run fuel place) ((m.surround before after).run fuel place) := by
    refine Progress.Rel.run_of_reaches (s := ⟨place, m⟩)
      (R := fun n n' => n' = n.surround before after) ?_ rfl fuel
    rintro s _ hs rfl
    refine .step rfl (fun _ => halt_surround before after) ?_ (jump?_surround before after) ?_
    · rintro fault n _ rfl
      rfl
    · intro instruction hahead
      rw [perform_surround before after (hfree s hs _ hahead)]
      exact ⟨rfl, rfl⟩
  generalize m.run fuel place = first at hrun ⊢
  generalize (m.surround before after).run fuel place = second at hrun ⊢
  cases hrun with
  | none => rfl
  | some hlast => rw [hlast]; rfl

end Machine

/-! ### Programs on a surrounded tape -/

variable {code : List Char} {start : Nat} {tape : Tape} {input : Input} {sink : Sink}

/-- The run of a program comes to no move that an end of the tape stops, if the program is not
refused. -/
def Unstopped (code : List Char) (start : Nat) (tape : Tape) (input : Input) (sink : Sink) : Prop :=
  Delimiters.loop.firstUnmatched (minimize code) = none →
    ∀ s, Configuration.Reaches ⟨Place.atByte (minimize code) start, ⟨tape, input, sink, ""⟩⟩ s →
      ∀ c ∈ s.place.ahead.head?, ¬ s.machine.Clamps c

/-- A program none of whose moves is stopped does the same with cells around the tape. -/
theorem execute_surround (h : Unstopped code start tape input sink) (before after : Array UInt32)
    (fuel : Nat) :
    execute fuel code start (tape.surround before after) input sink =
      (execute fuel code start tape input sink).map (Halt.surround before after) := by
  unfold execute
  dsimp only
  cases hcode : Delimiters.loop.firstUnmatched (minimize code) with
  | some unmatched => rfl
  | none =>
    exact Machine.run_surround (m := ⟨tape, input, sink, ""⟩) before after (h hcode) fuel

/-- The end of a run on a tape `whole` that holds a copy of a tape of `size` cells from cell `k` on,
compared with the end of the run on that tape: the copy fared like the tape, and the cells outside
the copy are as they were. -/
structure Halt.InCopy (whole : Tape) (k size : Nat) (halt halt' : Halt) : Prop where
  result_eq : halt'.result = halt.result
  sink_eq : halt'.machine.sink = halt.machine.sink
  input_eq : halt'.machine.input = halt.machine.input
  holds : halt'.machine.tape.Holds k halt.machine.tape
  outside : ∀ index, index < k ∨ k + size ≤ index →
    halt'.machine.tape.get? index = whole.get? index

/-- A program none of whose moves is stopped fares on a copy of a tape as on the tape: both runs
end or both do not, with the same result, output and input left, and the run on the copy leaves the
cells around it as they are. -/
theorem rel_execute_of_holds {whole : Tape} {k : Nat} (hwhole : whole.Holds k tape)
    (h : Unstopped code start tape input sink) (fuel : Nat) :
    Option.Rel (Halt.InCopy whole k tape.size) (execute fuel code start tape input sink)
      (execute fuel code start whole input sink) := by
  obtain ⟨before, after, rfl, rfl⟩ := hwhole.exists_surround
  rw [execute_surround h]
  cases hrun : execute fuel code start tape input sink with
  | none => exact .none
  | some halt =>
    have hsize : halt.machine.tape.size = tape.size := size_execute hrun
    exact .some ⟨rfl, rfl, rfl, Tape.holds_surround before after,
      fun index hindex => Tape.get?_surround_outer before after hsize hindex⟩

/-- The loop `[->+<]` moves a 3 one cell to the right, in a copy as on two cells. -/
theorem rel_execute_of_holds_transfer :
    let tape : Tape := ⟨#[3, 4], 0, by decide⟩
    let whole : Tape := ⟨#[9, 3, 4, 8], 1, by decide⟩
    whole.Holds 1 tape ∧ Unstopped "[->+<]".toList 0 tape [] Sink.unlimited ∧
      ∃ halt, execute 30 "[->+<]".toList 0 whole [] Sink.unlimited = some halt ∧
        halt.machine.tape.cursor = 1 ∧ halt.machine.tape.get? 0 = some 9 ∧
        halt.machine.tape.get? 1 = some 0 ∧ halt.machine.tape.get? 2 = some 7 ∧
        halt.machine.tape.get? 3 = some 8 := by
  intro tape whole
  have hwhole : whole.Holds 1 tape := ⟨rfl, by decide⟩
  have hcode : "[->+<]".toList = Alpha.Family.add.code .forward 1 := rfl
  have hminimized : minimize "[->+<]".toList = "[->+<]".toList := by decide
  have hapart : Apart 1 tape.cursor 1 .forward := rfl
  have hrun : Carries .free (Alpha.Family.add.code .forward 1) ⟨tape, [], Sink.unlimited, ""⟩ _ :=
    carries_family_code hapart (by decide) (by decide)
  have hfree : Unstopped "[->+<]".toList 0 tape [] Sink.unlimited := by
    intro _ s hs
    rw [hminimized, Place.atByte_zero, hcode] at hs
    exact hrun.allowed hs
  have hrel := rel_execute_of_holds hwhole hfree 30
  have hend : execute 30 "[->+<]".toList 0 tape [] Sink.unlimited =
      some ⟨.ok "", ⟨⟨#[0, 7], 0, by decide⟩, [], Sink.unlimited, ""⟩⟩ := by
    cbv
  rw [hend] at hrel
  generalize execute 30 "[->+<]".toList 0 whole [] Sink.unlimited = copied at hrel ⊢
  cases hrel with
  | @some _ halt hcopy =>
    exact ⟨hwhole, hfree, halt, rfl, hcopy.holds.cursor_eq, hcopy.outside 0 (by decide),
      hcopy.holds.get?_eq 0 (by decide), hcopy.holds.get?_eq 1 (by decide),
      hcopy.outside 3 (by decide)⟩

end TapeTower
