import TapeTower.Proofs.Machine.Execution
import TapeTower.Proofs.Machine.Simulation

/-!
# Programs in turn

A line break is a comment, so that two programs on lines of their own are one program. It runs
as the two do in turn: the second starts on what the first one leaves, unless that one ended
with a fault (`exists_execute_turns_iff`).

No cancellation goes past the line break, so the minimized text is that of a program that
consists of two. Its structured runs are those of the first part, continued by those of the
second (`Program.run_append_iff`). What the first part has printed makes no difference to the
second but for the text that a run gives back in the end (`Machine.run_remember`).
-/

namespace TapeTower

/-! ### What was printed before -/

/-- The machine with a text in front of what it has printed in this run. -/
def Machine.remember (text : String) (m : Machine) : Machine :=
  { m with printed := text ++ m.printed }

/-- How a machine fares with a text in front of what it has printed. -/
def Ending.remember (text : String) (e : Ending) : Ending := (e.1, e.2.remember text)

/-- The end of a run with a text in front of all that it has printed. -/
def Halt.remember (text : String) (halt : Halt) : Halt :=
  ⟨halt.result.map (text ++ ·), halt.machine.remember text⟩

namespace Machine

variable (text : String) (m : Machine)

lemma read_remember : (m.remember text).read = Ending.remember text m.read := by
  have hflush : (m.remember text).flush = m.flush := rfl
  have hinput : (m.remember text).input = m.input := rfl
  simp only [read, hflush, hinput]
  rcases m.flush with _ | _
  · rfl
  · rcases m.input.readCharacter with ⟨_ | _, input⟩ <;> rfl

lemma print_remember : (m.remember text).print = Ending.remember text m.print := by
  have htape : (m.remember text).tape = m.tape := rfl
  have hsink : (m.remember text).sink = m.sink := rfl
  simp only [print, htape, hsink]
  cases m.sink.write? (printedChar m.tape.current) with
  | none => rfl
  | some sink => simp [Ending.remember, remember, ← String.append_singleton, String.append_assoc]

/-- No instruction takes notice of what was printed before. -/
lemma perform_remember (instruction : Instruction) :
    (m.remember text).perform instruction = Ending.remember text (m.perform instruction) := by
  cases instruction with
  | read => exact read_remember text m
  | print => exact print_remember text m
  | _ => rfl

lemma halt_remember : Ending.halt (.ok (), m.remember text) =
    (Ending.halt (.ok (), m)).remember text := by
  have hflush : (m.remember text).flush = m.flush := rfl
  simp only [Ending.halt, hflush]
  cases m.flush with
  | error fault => rfl
  | ok _ => rfl

/-- A run takes no notice of what was printed before, and gives it back in the end. -/
theorem run_remember (fuel : Nat) (place : Place Char) :
    (m.remember text).run fuel place = (m.run fuel place).map (Halt.remember text) := by
  have hrun : Option.Rel (fun halt halt' => halt' = Halt.remember text halt) (m.run fuel place)
      ((m.remember text).run fuel place) := by
    refine Progress.Rel.run (R := fun n n' => n' = n.remember text) ?_ rfl fuel place
    rintro n _ place rfl
    refine .step rfl (fun _ => n.halt_remember text) ?_ ?_ ?_
    · rintro fault n _ rfl
      rfl
    · intro instruction
      cases instruction <;> rfl
    · intro instruction _
      rw [perform_remember]
      exact ⟨rfl, rfl⟩
  generalize m.run fuel place = first at hrun ⊢
  generalize (m.remember text).run fuel place = second at hrun ⊢
  cases hrun with
  | none => rfl
  | some hlast => rw [hlast]; rfl

end Machine

/-! ### Flushes along a run -/

namespace Machine

variable {m m' : Machine}

/-- An instruction leaves it as it is whether flushes fail. -/
lemma flushFails_perform (m : Machine) (instruction : Instruction) :
    (m.perform instruction).2.sink.flushFails = m.sink.flushFails := by
  cases instruction with
  | read =>
    rw [perform, read]
    rcases m.flush with _ | _
    · rfl
    · rcases m.input.readCharacter with ⟨_ | _, input⟩ <;> rfl
  | print =>
    rw [perform, print]
    simp only [Sink.write?]
    split
    · next sink hwrite =>
      split at hwrite
      · cases hwrite
        rfl
      · cases hwrite
    · rfl
  | _ => rfl

lemma flushFails_actAll (m : Machine) (text : List Char) :
    (m.actAll text).2.sink.flushFails = m.sink.flushFails := by
  induction text generalizing m with
  | nil => rfl
  | cons c text ih =>
    have hact : (m.act c).2.sink.flushFails = m.sink.flushFails := by
      rw [act]
      split
      · exact flushFails_perform m _
      · rfl
    rw [actAll]
    rcases h : m.act c with ⟨_ | _, m'⟩
    · rwa [h] at hact
    · rw [h] at hact
      exact (ih m').trans hact

end Machine

namespace Program

/-- Whether flushes fail does not change along a run. -/
lemma Run.flushFails_eq {p : Program} {m : Machine} {e : Ending} (h : p.Run m e) :
    e.2.sink.flushFails = m.sink.flushFails := by
  have hlead : ∀ {before : Straight} {m m₁ : Machine} {result : Except Fault Unit},
      Machine.actAll before.1 m = (result, m₁) → m₁.sink.flushFails = m.sink.flushFails := by
    intro before m m₁ result hbefore
    have hsame := m.flushFails_actAll before.1
    rwa [hbefore] at hsame
  induction h with
  | straight s m => exact m.flushFails_actAll s.1
  | fault hbefore => exact hlead hbefore
  | skip hbefore _ _ ih => exact ih.trans (hlead hbefore)
  | again hbefore _ _ _ ihbody ihagain => exact ihagain.trans (ihbody.trans (hlead hbefore))
  | faultInside hbefore _ _ ih => exact ih.trans (hlead hbefore)

end Program

/-! ### A program behind another one -/

/-- Two straight texts after each other. -/
def Straight.append (s t : Straight) : Straight :=
  ⟨s.1 ++ t.1, fun c hc => (List.mem_append.mp hc).elim (s.2 c) (t.2 c)⟩

namespace Program

/-- A program with straight text in front. -/
def prepend (s : Straight) : Program → Program
  | straight t => straight (s.append t)
  | loop before body rest => loop (s.append before) body rest

/-- A program with another one behind it. -/
def append : Program → Program → Program
  | straight s, q => q.prepend s
  | loop before body rest, q => loop before body (rest.append q)

lemma text_prepend (s : Straight) (q : Program) : (q.prepend s).text = s.1 ++ q.text := by
  cases q with
  | straight t => rfl
  | loop before body rest => simp [prepend, text, Straight.append]

lemma text_append (p q : Program) : (p.append q).text = p.text ++ q.text := by
  induction p with
  | straight s => exact text_prepend s q
  | loop before body rest _ ih => simp [append, text, ih]

/-- How a program fares that comes after something that ended like this: a fault has stopped
all, and otherwise the program runs. -/
def Continues (q : Program) : Ending → Ending → Prop
  | (.error fault, m), e => e = (.error fault, m)
  | (.ok (), m), e => q.Run m e

lemma run_straight_iff {s : Straight} {m : Machine} {e : Ending} :
    (straight s).Run m e ↔ e = m.actAll s.1 := by
  constructor
  · rintro ⟨⟩
    rfl
  · rintro rfl
    exact .straight s m

/-- A fault in the straight text in front of a loop is the end of the program. -/
lemma run_loop_iff_of_fault {before : Straight} {body rest : Program} {m m' : Machine}
    {fault : Fault} {e : Ending} (h : m.actAll before.1 = (.error fault, m')) :
    (loop before body rest).Run m e ↔ e = (.error fault, m') := by
  constructor
  · intro hrun
    cases hrun with
    | fault hbefore => exact hbefore.symm.trans h
    | skip hbefore => cases hbefore.symm.trans h
    | again hbefore => cases hbefore.symm.trans h
    | faultInside hbefore => cases hbefore.symm.trans h
  · rintro rfl
    exact .fault h

/-- The straight text in front of a loop has its effect before anything else. -/
lemma Run.of_actAll_eq {before before' : Straight} {body rest : Program} {m m' : Machine}
    {e : Ending} (heq : m'.actAll before'.1 = m.actAll before.1)
    (h : (loop before body rest).Run m e) : (loop before' body rest).Run m' e := by
  cases h with
  | fault hbefore => exact .fault (heq.trans hbefore)
  | skip hbefore hcell hrest => exact .skip (heq.trans hbefore) hcell hrest
  | again hbefore hcell hbody hagain => exact .again (heq.trans hbefore) hcell hbody hagain
  | faultInside hbefore hcell hbody => exact .faultInside (heq.trans hbefore) hcell hbody

/-- Straight text in front of a program has its effect, and then the program runs. -/
lemma run_prepend_iff {s : Straight} {q : Program} {m : Machine} {e : Ending} :
    (q.prepend s).Run m e ↔ q.Continues (m.actAll s.1) e := by
  rcases hs : m.actAll s.1 with ⟨fault | _, m'⟩
  · have happend : ∀ t : Straight, m.actAll (s.append t).1 = (.error fault, m') := by
      intro t
      show m.actAll (s.1 ++ t.1) = _
      rw [Machine.actAll_append, hs]
    cases q with
    | straight t => exact run_straight_iff.trans (by rw [happend]; rfl)
    | loop before body rest => exact run_loop_iff_of_fault (happend before)
  · have happend : ∀ t : Straight, m.actAll (s.append t).1 = m'.actAll t.1 := by
      intro t
      show m.actAll (s.1 ++ t.1) = _
      rw [Machine.actAll_append, hs]
    cases q with
    | straight t => exact run_straight_iff.trans (by rw [happend]; exact run_straight_iff.symm)
    | loop before body rest =>
      exact ⟨Run.of_actAll_eq (happend before).symm, Run.of_actAll_eq (happend before)⟩

/-- A run of the first program, continued by the second, is a run of both. -/
lemma Run.append {p q : Program} {m : Machine} {e e' : Ending} (h : p.Run m e)
    (hq : q.Continues e e') : (p.append q).Run m e' := by
  induction h with
  | straight s m => exact run_prepend_iff.mpr hq
  | fault hbefore =>
    obtain rfl := hq
    exact .fault hbefore
  | skip hbefore hcell _ ih => exact .skip hbefore hcell (ih hq)
  | again hbefore hcell hbody _ _ ih => exact .again hbefore hcell hbody (ih hq)
  | faultInside hbefore hcell hbody _ =>
    obtain rfl := hq
    exact .faultInside hbefore hcell hbody

/-- A run of two programs after each other is a run of the first, continued by the second. -/
theorem run_append_iff {p q : Program} {m : Machine} {e : Ending} :
    (p.append q).Run m e ↔ ∃ e₁, p.Run m e₁ ∧ q.Continues e₁ e := by
  refine ⟨fun h => ?_, fun ⟨e₁, hp, hq⟩ => hp.append hq⟩
  induction p generalizing m e with
  | straight s => exact ⟨_, .straight s m, run_prepend_iff.mp h⟩
  | loop before body rest _ ih =>
    generalize hboth : (loop before body rest).append q = both at h
    -- A loop that is run again has no text before it any more.
    induction h generalizing before with
    | straight s m => cases hboth
    | fault hbefore =>
      cases hboth
      exact ⟨_, .fault hbefore, rfl⟩
    | skip hbefore hcell hrest _ =>
      cases hboth
      obtain ⟨e₁, hrun, hq⟩ := ih hrest
      exact ⟨e₁, .skip hbefore hcell hrun, hq⟩
    | again hbefore hcell hbody _ _ ihagain =>
      cases hboth
      obtain ⟨e₁, hrun, hq⟩ := ihagain .empty rfl
      exact ⟨e₁, .again hbefore hcell hbody hrun, hq⟩
    | faultInside hbefore hcell hbody _ =>
      cases hboth
      exact ⟨_, .faultInside hbefore hcell hbody, rfl⟩

end Program

/-! ### Turns -/

/-- How a second program ends that is run after a first one: on the tape, the input and the sink
that the first one leaves. If that one ended with a fault, the second is not run. -/
def Halt.ThenRuns (code : List Char) (first last : Halt) : Prop :=
  match first.result with
  | .error _ => last = first
  | .ok output => ∃ fuel second,
      execute fuel code 0 first.machine.tape first.machine.input first.machine.sink = some second ∧
        last = second.remember output

variable {p q : List Char} {tape : Tape} {input : Input} {sink : Sink}

/-- The program that a text with partnered loop brackets is minimized to. -/
lemma exists_program_minimize (h : Delimiters.loop.firstUnmatched p = none) :
    ∃ program : Program, program.text = minimize p :=
  Program.exists_text_eq ((Delimiters.balanced_iff_of_skeleton_eq (by decide)
    (skeleton_minimize p)).mpr ((Delimiters.firstUnmatched_eq_none_iff (by decide)).mp h))

/-- A second program goes on from a machine as `execute` runs it on the parts of this machine. -/
lemma exists_run_iff_exists_remember {program : Program} (hq : program.text = minimize q)
    (m : Machine) (last : Halt) :
    (∃ e, program.Run m e ∧ last = Ending.halt e) ↔
      ∃ fuel second, execute fuel q 0 m.tape m.input m.sink = some second ∧
        last = second.remember m.printed := by
  have hcode : Delimiters.loop.firstUnmatched (minimize q) = none :=
    hq ▸ program.firstUnmatched_text
  have hm : Machine.remember m.printed ⟨m.tape, m.input, m.sink, ""⟩ = m := by
    simp [Machine.remember]
  have hrun : ∀ fuel, m.run fuel ⟨[], minimize q⟩ =
      (execute fuel q 0 m.tape m.input m.sink).map (Halt.remember m.printed) := by
    intro fuel
    rw [execute_eq_run hcode, Place.atByte_zero, ← Machine.run_remember, hm]
  rw [← Program.exists_machine_run_iff, hq]
  simp only [hrun, Option.map_eq_some_iff]
  exact exists_congr fun fuel => exists_congr fun second => and_congr_right fun _ => eq_comm

/-- What comes after the end of a first program is what comes after its structured run. -/
lemma thenRuns_halt_iff {program : Program} (hq : program.text = minimize q) {e₁ : Ending}
    (hflush : e₁.2.sink.flushFails = false) {last : Halt} :
    (Ending.halt e₁).ThenRuns q last ↔ ∃ e, program.Continues e₁ e ∧ last = Ending.halt e := by
  rcases e₁ with ⟨fault | _, m⟩
  · constructor
    · intro h
      exact ⟨_, rfl, h⟩
    · rintro ⟨e, rfl, h⟩
      exact h
  · have hdelivered : m.flush = .ok () := by
      rw [Machine.flush, hflush]
      rfl
    have hhalt : Ending.halt (.ok (), m) = ⟨.ok m.printed, m⟩ := by
      simp only [Ending.halt, hdelivered]
    rw [hhalt]
    exact (exists_run_iff_exists_remember hq m last).symm

/-- A line break. -/
def Straight.lineBreak : Straight := ⟨['\n'], by simp [IsPlain]⟩

lemma continues_lineBreak_iff {program : Program} {e₁ e : Ending} :
    (program.prepend .lineBreak).Continues e₁ e ↔ program.Continues e₁ e := by
  rcases e₁ with ⟨fault | _, m⟩
  · exact Iff.rfl
  · exact Program.run_prepend_iff

/-- A program on lines before another one ends as the two do in turn, if flushes do not fail:
with the same result, the output of both together, and the same tape, sink and input left. -/
theorem exists_execute_turns_iff (hp : Delimiters.loop.firstUnmatched p = none)
    (hq : Delimiters.loop.firstUnmatched q = none) (hsink : sink.flushFails = false)
    (tape : Tape) (input : Input) (last : Halt) :
    (∃ fuel, execute fuel (p ++ '\n' :: q) 0 tape input sink = some last) ↔
      ∃ fuel first, execute fuel p 0 tape input sink = some first ∧ first.ThenRuns q last := by
  obtain ⟨first, hfirst⟩ := exists_program_minimize hp
  obtain ⟨second, hsecond⟩ := exists_program_minimize hq
  have hboth : (first.append (second.prepend .lineBreak)).text = minimize (p ++ '\n' :: q) := by
    rw [Program.text_append, Program.text_prepend, hfirst, hsecond,
      minimize_append_cons (by simp [IsCancelled])]
    rfl
  rw [exists_execute_iff_run hboth]
  simp only [Program.run_append_iff, continues_lineBreak_iff]
  constructor
  · rintro ⟨e, ⟨e₁, hrun, hcontinues⟩, rfl⟩
    obtain ⟨fuel, hexecute⟩ := (exists_execute_iff_run hfirst).mpr ⟨e₁, hrun, rfl⟩
    have hflush : e₁.2.sink.flushFails = false := hrun.flushFails_eq.trans hsink
    exact ⟨fuel, _, hexecute, (thenRuns_halt_iff hsecond hflush).mpr ⟨e, hcontinues, rfl⟩⟩
  · rintro ⟨fuel, _, hexecute, hthen⟩
    obtain ⟨e₁, hrun, rfl⟩ := (exists_execute_iff_run hfirst).mp ⟨fuel, hexecute⟩
    have hflush : e₁.2.sink.flushFails = false := hrun.flushFails_eq.trans hsink
    obtain ⟨e, hcontinues, rfl⟩ := (thenRuns_halt_iff hsecond hflush).mp hthen
    exact ⟨e, ⟨e₁, hrun, hcontinues⟩, rfl⟩

/-- The first line counts down and prints, and the second one goes on with what it has read. -/
theorem exists_execute_turns_iff_two_lines :
    let p := "++[.-]".toList
    let q := ",[.,]".toList
    Delimiters.loop.firstUnmatched p = none ∧ Delimiters.loop.firstUnmatched q = none ∧
      Sink.unlimited.flushFails = false ∧
      ∃ last, (∃ fuel, execute fuel (p ++ '\n' :: q) 0 (Tape.blank 1) (Input.ofBytes [0x42, 0x00])
        Sink.unlimited = some last) ∧ last.result = .ok "\x02\x01B" := by
  intro p q
  have hp : Delimiters.loop.firstUnmatched p = none := by decide
  have hq : Delimiters.loop.firstUnmatched q = none := by decide
  have hsink : Sink.unlimited.flushFails = false := rfl
  have hboth := (exists_execute_turns_iff hp hq hsink (Tape.blank 1) (Input.ofBytes [0x42, 0x00])
    _).mpr ⟨20, _, rfl, 20, _, rfl, rfl⟩
  exact ⟨hp, hq, hsink, _, hboth, rfl⟩

end TapeTower
