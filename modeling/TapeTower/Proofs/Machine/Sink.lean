import TapeTower.Proofs.Machine.Faults
import TapeTower.Proofs.Machine.Output
import TapeTower.Proofs.Machine.Simulation

/-!
# Runs into a sink that may fail

What a sink is given depends on the program, but nothing that the program does depends on the
sink, as long as the sink takes what it is given. So a run into a sink with limits is compared
with the run into the ideal sink, which has none. `Configuration.Served` says that the limits
let pass what the instruction ahead asks of the sink, and `Configuration.onto` puts the sink
with its limits in the place of the ideal one.

A step that is served is the same step in both runs (`step_onto_of_served`), and one that is not
served stops the run and changes nothing (`step_onto_of_not_served`). Along the visited
configurations (`Path`) the two runs therefore go together up to the first one that is not
served (`path_onto_iff`).

What has been written is the characters that the visited print instructions put out, each of
them whole and once (`Path.written_eq`).
-/

namespace TapeTower

/-! ### Sinks in exchange -/

/-- The sink that holds the same text and takes all that is still to come. -/
def Sink.ideal (sink : Sink) : Sink := ⟨sink.written, none, false⟩

lemma Sink.neverFails_ideal (sink : Sink) : sink.ideal.NeverFails := ⟨rfl, rfl⟩

namespace Machine

/-- The machine with the limits of a sink in the place of those of its own. What has been
written stays written. -/
def onto (sink : Sink) (m : Machine) : Machine :=
  { m with sink := { sink with written := m.sink.written } }

end Machine

/-- The end of a run, with the limits of a sink in the place of those of its own. -/
def Halt.onto (sink : Sink) (halt : Halt) : Halt := ⟨halt.result, halt.machine.onto sink⟩

/-- How a machine fares, with the limits of a sink in the place of those of its own. -/
def Ending.onto (sink : Sink) (e : Ending) : Ending := (e.1, e.2.onto sink)

/-- What a step leads to, with the limits of a sink in the place of those of its own. -/
def Machine.Progress.onto (sink : Sink) : Machine.Progress → Machine.Progress
  | .next place m => .next place (m.onto sink)
  | .halt h => .halt (h.onto sink)

namespace Configuration

/-- The same place, with the limits of a sink in the place of those of the machine. -/
def onto (sink : Sink) (s : Configuration) : Configuration := ⟨s.place, s.machine.onto sink⟩

/-- What the instruction ahead asks of the sink is done: a print instruction finds room for
its character, and the flush before a read or at the end of the program does not fail. -/
def Served (sink : Sink) (s : Configuration) : Prop :=
  match s.place.ahead with
  | [] => sink.flushFails = false
  | c :: _ =>
    (c = ',' → sink.flushFails = false) ∧
      (c = '.' → (s.machine.onto sink).sink.fits (printedChar s.machine.tape.current) = true)

/-- The failure of the sink to do what the instruction ahead asks of it. -/
def refusal (s : Configuration) : Fault :=
  .io (if s.place.ahead.head? = some '.' then "sink full" else "flush failed")

/-- The character that the instruction ahead puts out, if it is a print instruction. -/
def output (s : Configuration) : List Char :=
  if s.place.ahead.head? = some '.' then [printedChar s.machine.tape.current] else []

end Configuration

/-! ### One step -/

namespace Machine

variable {sink : Sink} {m : Machine}

lemma jump?_onto (instruction : Instruction) :
    (m.onto sink).jump? instruction = m.jump? instruction := by
  cases instruction <;> rfl

lemma flush_onto (h : sink.flushFails = false) : (m.onto sink).flush = .ok () := by
  have hflush : (m.onto sink).sink.flushFails = false := h
  rw [flush, hflush]
  rfl

lemma flush_onto_of_fails (h : sink.flushFails = true) :
    (m.onto sink).flush = .error (.io "flush failed") := by
  have hflush : (m.onto sink).sink.flushFails = true := h
  rw [flush, hflush]
  rfl

/-- Reading takes no notice of a sink whose flush succeeds. -/
lemma read_onto (hm : m.sink.NeverFails) (h : sink.flushFails = false) :
    (m.onto sink).read = Ending.onto sink m.read := by
  rw [read_of_neverFails hm, read, flush_onto h]
  have hinput : (m.onto sink).input = m.input := rfl
  simp only [hinput, receive]
  rcases m.input.readCharacter with ⟨_ | _, input⟩ <;> rfl

/-- Printing takes no notice of a sink that has room. -/
lemma print_onto (hm : m.sink.NeverFails)
    (h : (m.onto sink).sink.fits (printedChar m.tape.current) = true) :
    (m.onto sink).print = Ending.onto sink m.print := by
  have htape : (m.onto sink).tape = m.tape := rfl
  rw [print_of_neverFails hm]
  simp only [print, Sink.write?, htape, if_pos h]
  rfl

/-- An instruction takes no notice of a sink that takes what it is given. -/
lemma perform_onto (hm : m.sink.NeverFails) {instruction : Instruction}
    (hread : instruction = .read → sink.flushFails = false)
    (hprint : instruction = .print →
      (m.onto sink).sink.fits (printedChar m.tape.current) = true) :
    (m.onto sink).perform instruction = Ending.onto sink (m.perform instruction) := by
  cases instruction with
  | read => exact read_onto hm (hread rfl)
  | print => exact print_onto hm (hprint rfl)
  | _ => rfl

/-- A step that the sink serves is the step of the run into the ideal sink. -/
theorem step_onto_of_served {place : Place Char} (hm : m.sink.NeverFails)
    (h : Configuration.Served sink ⟨place, m⟩) :
    (m.onto sink).step place = (m.step place).onto sink := by
  have hstep : Progress.Rel (fun n n' => n' = n.onto sink)
      (fun halt halt' => halt' = halt.onto sink) (m.step place) ((m.onto sink).step place) := by
    refine .step rfl ?_ ?_ jump?_onto ?_
    · intro hahead
      have hflush : sink.flushFails = false := by simpa [Configuration.Served, hahead] using h
      simp only [Ending.halt, flush_onto hflush, flush_of_neverFails hm]
      rfl
    · rintro fault n _ rfl
      rfl
    · intro instruction hhead
      obtain ⟨ahead, hahead⟩ := List.head?_eq_some_iff.mp hhead
      simp only [Configuration.Served, hahead] at h
      have hperform : (m.onto sink).perform instruction =
          Ending.onto sink (m.perform instruction) := by
        refine perform_onto hm ?_ ?_
        · rintro rfl
          exact h.1 rfl
        · rintro rfl
          exact h.2 rfl
      rw [hperform]
      exact ⟨rfl, rfl⟩
  generalize m.step place = first at hstep ⊢
  generalize (m.onto sink).step place = second at hstep ⊢
  cases hstep with
  | next hnext => rw [hnext]; rfl
  | halt hhalt => rw [hhalt]; rfl

/-- A step that the sink does not serve stops the run, and the machine stays as it is. -/
theorem step_onto_of_not_served {place : Place Char}
    (h : ¬ Configuration.Served sink ⟨place, m⟩) :
    (m.onto sink).step place =
      .halt ⟨.error (Configuration.refusal ⟨place, m⟩), m.onto sink⟩ := by
  obtain ⟨behind, ahead⟩ := place
  cases ahead with
  | nil =>
    have hflush : sink.flushFails = true := by simpa [Configuration.Served] using h
    simp only [step, flush_onto_of_fails hflush]
    rfl
  | cons c ahead =>
    have hcases : (c = ',' ∧ sink.flushFails = true) ∨
        (c = '.' ∧ (m.onto sink).sink.fits (printedChar m.tape.current) = false) := by
      simp only [Configuration.Served] at h
      grind
    rcases hcases with ⟨rfl, hflush⟩ | ⟨rfl, hfits⟩
    · have hread : (m.onto sink).perform .read = (.error (.io "flush failed"), m.onto sink) := by
        simp only [perform, read, flush_onto_of_fails hflush]
      simp only [step, Instruction.ofChar?, jump?, hread]
      rfl
    · have hprint : (m.onto sink).perform .print = (.error (.io "sink full"), m.onto sink) := by
        have htape : (m.onto sink).tape = m.tape := rfl
        simp only [perform, print, Sink.write?, htape, hfits]
        rfl
      simp only [step, Instruction.ofChar?, jump?, hprint]
      rfl

/-- An instruction keeps the limits of the sink. -/
lemma neverFails_of_perform {m' : Machine} {instruction : Instruction}
    {result : Except Fault Unit} (hm : m.sink.NeverFails)
    (h : m.perform instruction = (result, m')) : m'.sink.NeverFails := by
  cases instruction with
  | read =>
    rw [perform, read_of_neverFails hm, receive] at h
    split at h <;> cases h <;> exact hm
  | print =>
    rw [perform, print_of_neverFails hm] at h
    cases h
    exact hm
  | _ =>
    cases h
    exact hm

/-- An instruction that is carried out writes the character that it prints, if it prints, and
nothing else. -/
lemma written_of_perform {m' : Machine} {instruction : Instruction} (hm : m.sink.NeverFails)
    (h : m.perform instruction = (.ok (), m')) :
    let text := String.ofList (if instruction = .print then [printedChar m.tape.current] else [])
    m'.sink.written = m.sink.written ++ text ∧ m'.printed = m.printed ++ text := by
  cases instruction with
  | read =>
    rw [perform, read_of_neverFails hm, receive] at h
    split at h
    · cases h
      simp
    · cases h
  | print =>
    rw [perform, print_of_neverFails hm] at h
    cases h
    simp [emit]
  | _ =>
    cases h
    simp

end Machine

/-! ### Whole runs -/

namespace Configuration

variable {sink : Sink} {s t : Configuration} {visited : List Configuration} {halt : Halt}

lemma leads_onto_iff (hs : s.machine.sink.NeverFails) (hserved : s.Served sink) :
    (s.onto sink).Leads t ↔ ∃ u, s.Leads u ∧ t = u.onto sink := by
  have hstep : (s.onto sink).machine.step (s.onto sink).place =
      (s.machine.step s.place).onto sink := Machine.step_onto_of_served hs hserved
  unfold Leads
  rw [hstep]
  constructor
  · intro h
    cases hnext : s.machine.step s.place with
    | next place m =>
      rw [hnext] at h
      obtain ⟨hplace, hm⟩ := Machine.Progress.next.inj h
      refine ⟨⟨place, m⟩, rfl, ?_⟩
      cases t
      simp only at hplace hm
      rw [← hplace, ← hm]
      rfl
    | halt halt =>
      rw [hnext] at h
      cases h
  · rintro ⟨u, hu, rfl⟩
    rw [hu]
    rfl

lemma haltsWith_onto_iff (hs : s.machine.sink.NeverFails) (hserved : s.Served sink) :
    (s.onto sink).HaltsWith halt ↔ ∃ halt', s.HaltsWith halt' ∧ halt = halt'.onto sink := by
  have hstep : (s.onto sink).machine.step (s.onto sink).place =
      (s.machine.step s.place).onto sink := Machine.step_onto_of_served hs hserved
  unfold HaltsWith
  rw [hstep]
  constructor
  · intro h
    cases hnext : s.machine.step s.place with
    | next place m =>
      rw [hnext] at h
      cases h
    | halt halt' =>
      rw [hnext] at h
      exact ⟨halt', rfl, (Machine.Progress.halt.inj h).symm⟩
  · rintro ⟨halt', hhalt, rfl⟩
    rw [hhalt]
    rfl

/-- A step carries out the instruction ahead, or it leaves the machine as it is and puts
nothing out. -/
lemma Leads.perform_or (h : s.Leads t) :
    (∃ instruction ahead, s.place.ahead = instruction.char :: ahead ∧
        s.machine.perform instruction = (.ok (), t.machine)) ∨
      t.machine = s.machine ∧ s.output = [] := by
  obtain ⟨⟨behind, ahead⟩, m⟩ := s
  obtain ⟨place', m'⟩ := t
  unfold Leads at h
  simp only at h
  cases ahead with
  | nil =>
    have hend := haltsWith_nil behind m
    unfold HaltsWith at hend
    rw [hend] at h
    cases h
  | cons c ahead =>
    rw [Machine.step] at h
    simp only at h
    cases hc : Instruction.ofChar? c with
    | none =>
      rw [hc] at h
      obtain ⟨-, rfl⟩ := Machine.Progress.next.inj h
      have hprint : c ≠ '.' := by
        rintro rfl
        cases hc
      exact Or.inr ⟨rfl, by simp [output, hprint]⟩
    | some instruction =>
      obtain rfl := Instruction.eq_char_of_ofChar? hc
      simp only [hc] at h
      cases hjump : m.jump? instruction with
      | some direction =>
        simp only [hjump] at h
        split at h
        · obtain ⟨-, rfl⟩ := Machine.Progress.next.inj h
          have hprint : instruction ≠ .print := by
            rintro rfl
            cases hjump
          refine Or.inr ⟨rfl, ?_⟩
          cases instruction <;> simp_all [output, Instruction.char]
        · cases h
      | none =>
        simp only [hjump] at h
        rcases hperform : m.perform instruction with ⟨_ | _, m₁⟩
        · rw [hperform] at h
          cases h
        · rw [hperform] at h
          obtain ⟨-, rfl⟩ := Machine.Progress.next.inj h
          exact Or.inl ⟨instruction, ahead, rfl, hperform⟩

/-- A step keeps the limits of the sink. -/
lemma Leads.neverFails (h : s.Leads t) (hs : s.machine.sink.NeverFails) :
    t.machine.sink.NeverFails := by
  rcases h.perform_or with ⟨instruction, ahead, -, hperform⟩ | ⟨hmachine, -⟩
  · exact Machine.neverFails_of_perform hs hperform
  · rwa [hmachine]

/-- A step writes what the instruction ahead puts out. -/
lemma Leads.written_eq (h : s.Leads t) (hs : s.machine.sink.NeverFails) :
    t.machine.sink.written = s.machine.sink.written ++ String.ofList s.output ∧
      t.machine.printed = s.machine.printed ++ String.ofList s.output := by
  rcases h.perform_or with ⟨instruction, ahead, hahead, hperform⟩ | ⟨hmachine, houtput⟩
  · have houtput : s.output =
        if instruction = .print then [printedChar s.machine.tape.current] else [] := by
      rw [output, hahead]
      cases instruction <;> simp [Instruction.char]
    rw [houtput]
    exact Machine.written_of_perform hs hperform
  · rw [hmachine, houtput]
    simp

/-- The run from `s` comes to `t` by way of the visited configurations, of which `s` is the
first; `t` itself is not among them. -/
inductive Path : Configuration → List Configuration → Configuration → Prop
  | nil (s : Configuration) : Path s [] s
  | cons {s t u : Configuration} {visited : List Configuration} (hlead : s.Leads t)
      (hpath : Path t visited u) : Path s (s :: visited) u

lemma Path.reaches (h : s.Path visited t) : s.Reaches t := by
  induction h with
  | nil => exact .refl
  | cons hlead _ ih => exact ih.head hlead

lemma Reaches.exists_path (h : s.Reaches t) : ∃ visited, s.Path visited t := by
  induction h using Relation.ReflTransGen.head_induction_on with
  | refl => exact ⟨[], .nil t⟩
  | head hlead _ ih =>
    obtain ⟨visited, hpath⟩ := ih
    exact ⟨_ :: visited, .cons hlead hpath⟩

lemma Path.neverFails (h : s.Path visited t) (hs : s.machine.sink.NeverFails) :
    t.machine.sink.NeverFails := by
  induction h with
  | nil => exact hs
  | cons hlead _ ih => exact ih (hlead.neverFails hs)

/-- What has been written is what the visited configurations have put out. -/
theorem Path.written_eq (h : s.Path visited t) (hs : s.machine.sink.NeverFails) :
    t.machine.sink.written = s.machine.sink.written ++ String.ofList (visited.flatMap output) ∧
      t.machine.printed = s.machine.printed ++ String.ofList (visited.flatMap output) := by
  induction h with
  | nil => simp
  | cons hlead _ ih =>
    obtain ⟨hwritten, hprinted⟩ := hlead.written_eq hs
    obtain ⟨hwritten', hprinted'⟩ := ih (hlead.neverFails hs)
    rw [List.flatMap_cons, String.ofList_append, ← String.append_assoc, ← String.append_assoc]
    exact ⟨hwritten'.trans (by rw [hwritten]), hprinted'.trans (by rw [hprinted])⟩

/-- Where the sink does not serve the instruction ahead, the run ends and changes nothing. -/
lemma haltsWith_of_not_served (h : ¬ s.Served sink) :
    (s.onto sink).HaltsWith ⟨.error s.refusal, s.machine.onto sink⟩ :=
  Machine.step_onto_of_not_served h

/-- The run into a sink with limits is the run into the ideal sink, as far as all that has been
asked of the sink is done. -/
theorem path_onto_iff (hs : s.machine.sink.NeverFails) :
    (s.onto sink).Path visited t ↔
      ∃ visited' t', s.Path visited' t' ∧ (∀ u ∈ visited', u.Served sink) ∧
        visited = visited'.map (onto sink) ∧ t = t'.onto sink := by
  constructor
  · intro h
    generalize hstart : s.onto sink = s' at h
    induction h generalizing s with
    | nil => exact ⟨[], s, .nil s, by simp, rfl, hstart.symm⟩
    | cons hlead _ ih =>
      subst hstart
      have hserved : s.Served sink := by
        by_contra hnot
        exact (haltsWith_of_not_served hnot).not_leads hlead
      obtain ⟨u, hu, rfl⟩ := (leads_onto_iff hs hserved).mp hlead
      obtain ⟨visited', t', hpath, hall, rfl, rfl⟩ := ih (hu.neverFails hs) rfl
      refine ⟨s :: visited', t', .cons hu hpath, ?_, rfl, rfl⟩
      exact List.forall_mem_cons.mpr ⟨hserved, hall⟩
  · rintro ⟨visited', t', hpath, hall, rfl, rfl⟩
    induction hpath with
    | nil => exact .nil _
    | @cons s u _ _ hlead _ ih =>
      obtain ⟨hserved, hall⟩ := List.forall_mem_cons.mp hall
      have hlead' : (s.onto sink).Leads (u.onto sink) :=
        (leads_onto_iff hs hserved).mpr ⟨u, hlead, rfl⟩
      exact .cons hlead' (ih (hlead.neverFails hs) hall)

/-- The run into a sink with these limits ends at `t`: the sink does not do what is asked of it,
or it does and the run ends there in any case. -/
def StopsWith (sink : Sink) (t : Configuration) (halt : Halt) : Prop :=
  (¬ t.Served sink ∧ halt = ⟨.error t.refusal, t.machine.onto sink⟩) ∨
    t.Served sink ∧ ∃ halt', t.HaltsWith halt' ∧ halt = halt'.onto sink

lemma haltsWith_onto_iff_stopsWith (hs : s.machine.sink.NeverFails) :
    (s.onto sink).HaltsWith halt ↔ s.StopsWith sink halt := by
  by_cases hserved : s.Served sink
  · rw [haltsWith_onto_iff hs hserved, StopsWith]
    simp only [hserved, not_true_eq_false, false_and, false_or, true_and]
  · have hhalt := haltsWith_of_not_served hserved
    unfold HaltsWith at hhalt ⊢
    rw [hhalt, StopsWith]
    simp only [hserved, not_false_eq_true, true_and, false_and, or_false,
      Machine.Progress.halt.injEq]
    exact eq_comm

/-- A run into a sink with limits ends where the run into the ideal sink ends, or at the first
configuration on the way that is not served. -/
theorem exists_run_onto_iff (hs : s.machine.sink.NeverFails) :
    (∃ fuel, (s.machine.onto sink).run fuel s.place = some halt) ↔
      ∃ visited t, s.Path visited t ∧ (∀ u ∈ visited, u.Served sink) ∧ t.StopsWith sink halt := by
  have hrun : (∃ fuel, (s.onto sink).machine.run fuel (s.onto sink).place = some halt) ↔
      ∃ t, (s.onto sink).Reaches t ∧ t.HaltsWith halt := exists_run_iff
  refine hrun.trans ?_
  constructor
  · rintro ⟨t, hreach, hhalt⟩
    obtain ⟨visited, hpath⟩ := hreach.exists_path
    obtain ⟨visited', t', hpath', hall, -, rfl⟩ := (path_onto_iff hs).mp hpath
    exact ⟨visited', t', hpath', hall,
      (haltsWith_onto_iff_stopsWith (hpath'.neverFails hs)).mp hhalt⟩
  · rintro ⟨visited, t, hpath, hall, hstops⟩
    have hpath' := (path_onto_iff hs).mpr ⟨visited, t, hpath, hall, rfl, rfl⟩
    exact ⟨t.onto sink, hpath'.reaches,
      (haltsWith_onto_iff_stopsWith (hpath.neverFails hs)).mpr hstops⟩

/-- If all that is asked of the sink is done, the run into it is the run into the ideal sink. -/
theorem run_onto (hs : s.machine.sink.NeverFails)
    (hserved : ∀ visited t, s.Path visited t → t.Served sink) (fuel : Nat) :
    (s.machine.onto sink).run fuel s.place =
      (s.machine.run fuel s.place).map (Halt.onto sink) := by
  induction fuel generalizing s with
  | zero => rfl
  | succ fuel ih =>
    have hstep : (s.machine.onto sink).step s.place = (s.machine.step s.place).onto sink :=
      Machine.step_onto_of_served hs (hserved [] s (.nil s))
    rw [Machine.run, Machine.run, hstep]
    cases hnext : s.machine.step s.place with
    | halt halt => rfl
    | next place m =>
      have hlead : s.Leads ⟨place, m⟩ := hnext
      refine ih (s := ⟨place, m⟩) (hlead.neverFails hs) ?_
      intro visited t hpath
      exact hserved _ t (.cons hlead hpath)

/-- The run with partnered brackets ends well at the end of the program, or at a read that meets
the end of the input or its failure. The read leaves all as it was but the input. -/
lemma HaltsWith.of_balanced (hplace : Delimiters.loop.Balanced s.place.text)
    (hs : s.machine.sink.NeverFails) (h : s.HaltsWith halt) :
    (s.place.ahead = [] ∧ halt = ⟨.ok s.machine.printed, s.machine⟩) ∨
      ∃ fault input, s.place.ahead.head? = some ',' ∧
        s.machine.input.readCharacter = (.error fault, input) ∧
        halt = ⟨.error fault, { s.machine with input }⟩ := by
  obtain ⟨⟨behind, ahead⟩, m⟩ := s
  cases ahead with
  | nil =>
    have hend := haltsWith_nil behind m
    rw [Ending.halt_of_neverFails hs] at hend
    unfold HaltsWith at h hend
    rw [hend] at h
    exact Or.inl ⟨rfl, (Machine.Progress.halt.inj h).symm⟩
  | cons c ahead =>
    unfold HaltsWith at h
    rw [Machine.step] at h
    simp only at h
    cases hc : Instruction.ofChar? c with
    | none =>
      rw [hc] at h
      cases h
    | some instruction =>
      obtain rfl := Instruction.eq_char_of_ofChar? hc
      simp only [hc] at h
      cases hjump : m.jump? instruction with
      | some direction =>
        obtain ⟨place, hpartner⟩ := Machine.exists_afterPartner_of_jump? hplace hjump
        simp only [hjump, hpartner] at h
        cases h
      | none =>
        simp only [hjump] at h
        rcases hperform : m.perform instruction with ⟨fault | _, m'⟩
        · rw [hperform] at h
          obtain rfl := Machine.Progress.halt.inj h
          cases instruction with
          | read =>
            rw [Machine.perform, Machine.read_of_neverFails hs, Machine.receive] at hperform
            split at hperform
            · cases hperform
            · next fault' input hread =>
              cases hperform
              exact Or.inr ⟨fault, input, rfl, hread, rfl⟩
          | print =>
            rw [Machine.perform, Machine.print_of_neverFails hs] at hperform
            cases hperform
          | _ => cases hperform
        · rw [hperform] at h
          cases h

end Configuration

/-! ### Programs -/

section Programs

open TapeTower.Configuration

variable {code : List Char} {start : Nat} {tape : Tape} {input : Input} {sink : Sink} {halt : Halt}

/-- Whatever the sink, a program that is refused is refused alike. -/
lemma execute_eq_of_unmatched (hcode : Delimiters.loop.firstUnmatched (minimize code) ≠ none)
    (fuel start : Nat) (tape : Tape) (input : Input) (sink : Sink) :
    execute fuel code start tape input sink =
      (execute fuel code start tape input sink.ideal).map (Halt.onto sink) := by
  obtain ⟨⟨side, index⟩, hfirst⟩ := Option.ne_none_iff_exists'.mp hcode
  simp only [execute, hfirst]
  rfl

/-- A program whose brackets are partnered is run within them, from whatever byte. -/
lemma balanced_of_path {m : Machine} {visited : List Configuration} {t : Configuration}
    (hcode : Delimiters.loop.firstUnmatched (minimize code) = none)
    (hpath : Path ⟨Place.atByte (minimize code) start, m⟩ visited t) :
    Delimiters.loop.Balanced t.place.text := by
  have hbalanced : Delimiters.loop.Balanced (Place.atByte (minimize code) start).text := by
    rw [Place.text_atByte]
    exact (Delimiters.firstUnmatched_eq_none_iff (by decide)).mp hcode
  rw [hpath.reaches.text_eq hbalanced]
  exact hbalanced

/-- The run of a program into the ideal sink, from the place that it is started at. -/
def idealStart (code : List Char) (start : Nat) (tape : Tape) (input : Input) (sink : Sink) :
    Configuration :=
  ⟨Place.atByte (minimize code) start, ⟨tape, input, sink.ideal, ""⟩⟩

lemma neverFails_idealStart :
    (idealStart code start tape input sink).machine.sink.NeverFails := sink.neverFails_ideal

/-- A program ends where the run into the ideal sink ends, or at the first configuration on the
way that is not served. -/
lemma exists_execute_iff_stopsWith
    (hcode : Delimiters.loop.firstUnmatched (minimize code) = none) :
    (∃ fuel, execute fuel code start tape input sink = some halt) ↔
      ∃ visited t, (idealStart code start tape input sink).Path visited t ∧
        (∀ u ∈ visited, u.Served sink) ∧ t.StopsWith sink halt := by
  rw [← exists_run_onto_iff neverFails_idealStart]
  simp only [execute_eq_run hcode]
  rfl

/-- What has been written when a program has ended well is the text that it gives back. -/
lemma written_of_execute {fuel : Nat} {text : String}
    (h : execute fuel code start tape input sink = some halt) (hresult : halt.result = .ok text) :
    halt.machine.sink.written = sink.written ++ text := by
  cases hcode : Delimiters.loop.firstUnmatched (minimize code) with
  | some unmatched =>
    simp only [execute, hcode] at h
    cases h
    cases hresult
  | none =>
    obtain ⟨visited, t, hpath, -, hstops⟩ := (exists_execute_iff_stopsWith hcode).mp ⟨fuel, h⟩
    have ht := hpath.neverFails neverFails_idealStart
    obtain ⟨hwritten, hprinted⟩ := hpath.written_eq neverFails_idealStart
    have hsame : t.machine.sink.written = sink.written ++ t.machine.printed := by
      rw [hwritten, hprinted]
      simp [idealStart, Sink.ideal]
    rcases hstops with ⟨-, rfl⟩ | ⟨-, halt', hhalt, rfl⟩
    · cases hresult
    · rcases hhalt.of_balanced (balanced_of_path hcode hpath) ht with ⟨-, rfl⟩ | hfault
      · obtain rfl := Except.ok.inj hresult
        exact hsame
      · obtain ⟨fault, input', -, -, rfl⟩ := hfault
        cases hresult

/-- A program runs into any sink as it runs into the ideal one, up to the first configuration at
which the sink does not do what is asked of it. There the run stops, with all that was written,
the tape and the input as they are in the ideal run. What is written along the way is what the
print instructions put out; a run that ends by itself ends at the end of the program, or at a
read that changes nothing but the input. -/
theorem execute_follows_ideal (code : List Char) (start : Nat) (tape : Tape) (input : Input)
    (sink : Sink) :
    let s := idealStart code start tape input sink
    (∀ visited t, (s.onto sink).Path visited t ↔
      ∃ visited' t', s.Path visited' t' ∧ (∀ u ∈ visited', u.Served sink) ∧
        visited = visited'.map (Configuration.onto sink) ∧ t = t'.onto sink) ∧
    (∀ visited t, s.Path visited t →
      t.machine.sink.written = sink.written ++ String.ofList (visited.flatMap output) ∧
        t.machine.printed = String.ofList (visited.flatMap output)) ∧
    (Delimiters.loop.firstUnmatched (minimize code) = none →
      (∀ halt, (∃ fuel, execute fuel code start tape input sink = some halt) ↔
        ∃ visited t, s.Path visited t ∧ (∀ u ∈ visited, u.Served sink) ∧
          t.StopsWith sink halt) ∧
      ∀ visited t halt, s.Path visited t → t.HaltsWith halt →
        (t.place.ahead = [] ∧ halt = ⟨.ok t.machine.printed, t.machine⟩) ∨
          ∃ fault input', t.place.ahead.head? = some ',' ∧
            t.machine.input.readCharacter = (.error fault, input') ∧
            halt = ⟨.error fault, { t.machine with input := input' }⟩) ∧
    ((Delimiters.loop.firstUnmatched (minimize code) = none →
        ∀ visited t, s.Path visited t → t.Served sink) →
      ∀ fuel, execute fuel code start tape input sink =
        (execute fuel code start tape input sink.ideal).map (Halt.onto sink)) ∧
    ∀ fuel halt text, execute fuel code start tape input sink = some halt →
      halt.result = .ok text → halt.machine.sink.written = sink.written ++ text := by
  intro s
  have hs : s.machine.sink.NeverFails := neverFails_idealStart
  refine ⟨fun visited t => path_onto_iff hs, ?_, ?_, ?_, ?_⟩
  · intro visited t hpath
    obtain ⟨hwritten, hprinted⟩ := hpath.written_eq hs
    refine ⟨hwritten, hprinted.trans ?_⟩
    simp [s, idealStart]
  · intro hcode
    refine ⟨fun halt => exists_execute_iff_stopsWith hcode, ?_⟩
    intro visited t halt hpath hhalt
    exact hhalt.of_balanced (balanced_of_path hcode hpath) (hpath.neverFails hs)
  · intro hserved fuel
    by_cases hcode : Delimiters.loop.firstUnmatched (minimize code) = none
    · rw [execute_eq_run hcode, execute_eq_run hcode]
      exact run_onto hs (hserved hcode) fuel
    · exact execute_eq_of_unmatched hcode fuel start tape input sink
  · intro fuel halt text h hresult
    exact written_of_execute h hresult

/-- Into a sink with room for one byte, the second of two characters is not written, and nothing
else is lost. With one character only, the run does not notice the sink. -/
theorem execute_follows_ideal_full :
    let tape := (Tape.blank 2).setCurrent 65
    let sink : Sink := ⟨"", some 1, false⟩
    Delimiters.loop.firstUnmatched (minimize "..".toList) = none ∧
      (∃ fuel, execute fuel "..".toList 0 tape [] sink =
        some ⟨.error (.io "sink full"), ⟨tape, [], ⟨"A", some 1, false⟩, "A"⟩⟩) ∧
      (∀ visited t, (idealStart ".".toList 0 tape [] sink).Path visited t → t.Served sink) ∧
      ∀ fuel, execute fuel ".".toList 0 tape [] sink =
        (execute fuel ".".toList 0 tape [] sink.ideal).map (Halt.onto sink) := by
  intro tape sink
  have hcode : Delimiters.loop.firstUnmatched (minimize "..".toList) = none := by decide
  obtain ⟨-, -, hstops, -, -⟩ := execute_follows_ideal "..".toList 0 tape [] sink
  obtain ⟨-, -, -, hequal, -⟩ := execute_follows_ideal ".".toList 0 tape [] sink
  have hfirst : (idealStart "..".toList 0 tape [] sink).Leads
      ⟨⟨['.'], ['.']⟩, ⟨tape, [], ⟨"A", none, false⟩, "A"⟩⟩ := rfl
  have hserved : ∀ visited t,
      (idealStart ".".toList 0 tape [] sink).Path visited t → t.Served sink := by
    intro visited t hpath
    cases hpath with
    | nil => exact ⟨by decide, fun _ => by decide⟩
    | cons hlead hrest =>
      have hend : (idealStart ".".toList 0 tape [] sink).Leads
          ⟨⟨['.'], []⟩, ⟨tape, [], ⟨"A", none, false⟩, "A"⟩⟩ := rfl
      obtain rfl := hlead.unique hend
      cases hrest with
      | nil => rfl
      | cons hlead => cases hlead
  refine ⟨hcode, ?_, hserved, hequal fun _ => hserved⟩
  refine ((hstops hcode).1 _).mpr ⟨_, _, .cons hfirst (.nil _), ?_, Or.inl ⟨?_, rfl⟩⟩
  · intro u hu
    obtain rfl := List.mem_singleton.mp hu
    exact ⟨by decide, fun _ => by decide⟩
  · rintro ⟨-, hfits⟩
    exact absurd (hfits rfl) (by decide)

end Programs

end TapeTower
