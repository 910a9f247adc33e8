import TapeTower.Proofs.Machine.Reach

/-!
# What can stop a run

A program that is running can meet two kinds of faults: its input is used up, or input or
output fails. This is said for each thing that a machine does, and then for a step at any
place of a balanced text (`step_of_balanced`): such a step stays in the text, and a jump in
it always finds the partner of its bracket. So no run that has begun stops for a bracket,
wherever it was begun (`Configuration.Reaches.ofRun`). A run that is refused for a bracket
has done nothing (`exists_firstUnmatched_of_execute`).
-/

namespace TapeTower

/-! ### Faults of input and output -/

/-- A fault that a running program may meet. -/
def Fault.OfRun (fault : Fault) : Prop :=
  fault = .inputExhausted ∨ ∃ message, fault = .io message

/-- The rest of a character is read unless the source fails. -/
lemma Input.ofRun_readFollowing {following : Nat} {low high : UInt8} {code : Nat}
    {input input' : Input} {fault : Fault}
    (h : readFollowing following low high code input = (.error fault, input')) : fault.OfRun := by
  induction following generalizing low high code input with
  | zero => cases h
  | succ following ih =>
    rw [readFollowing] at h
    cases hnext : input.next with
    | byte value rest =>
      simp only [hnext] at h
      split at h
      · exact ih h
      · cases h
    | failure message rest =>
      simp only [hnext] at h
      cases h
      exact Or.inr ⟨message, rfl⟩
    | done =>
      simp only [hnext] at h
      cases h

/-- A character is read unless the input is used up or fails. -/
lemma Input.ofRun_readCharacter {input input' : Input} {fault : Fault}
    (h : input.readCharacter = (.error fault, input')) : fault.OfRun := by
  rw [readCharacter] at h
  cases hnext : input.next with
  | byte value rest =>
    simp only [hnext] at h
    split at h
    · cases h
    · split at h
      · exact ofRun_readFollowing h
      · cases h
  | failure message rest =>
    simp only [hnext] at h
    cases h
    exact Or.inr ⟨message, rfl⟩
  | done =>
    simp only [hnext] at h
    cases h
    exact Or.inl rfl

namespace Machine

variable {m m' : Machine} {fault : Fault}

lemma ofRun_flush (h : m.flush = .error fault) : fault.OfRun := by
  unfold flush at h
  split at h
  · cases h
    exact Or.inr ⟨_, rfl⟩
  · cases h

lemma ofRun_print (h : m.print = (.error fault, m')) : fault.OfRun := by
  unfold print at h
  dsimp only at h
  split at h
  · cases h
  · cases h
    exact Or.inr ⟨_, rfl⟩

lemma ofRun_read (h : m.read = (.error fault, m')) : fault.OfRun := by
  unfold read at h
  split at h
  · next hflush =>
    cases h
    exact ofRun_flush hflush
  · split at h
    · cases h
    · next hread =>
      cases h
      exact Input.ofRun_readCharacter hread

/-- Only reading and printing meet faults. -/
lemma ofRun_perform {instruction : Instruction} (h : m.perform instruction = (.error fault, m')) :
    fault.OfRun := by
  cases instruction with
  | read => exact ofRun_read h
  | print => exact ofRun_print h
  | _ => cases h

lemma ofRun_act {c : Char} (h : m.act c = (.error fault, m')) : fault.OfRun := by
  unfold act at h
  split at h
  · exact ofRun_perform h
  · cases h

lemma ofRun_actAll {text : List Char} (h : m.actAll text = (.error fault, m')) :
    fault.OfRun := by
  induction text generalizing m with
  | nil => cases h
  | cons c text ih =>
    rw [actAll] at h
    rcases hact : m.act c with ⟨_ | _, m₁⟩
    · rw [hact] at h
      cases h
      exact ofRun_act hact
    · rw [hact] at h
      exact ih h

/-! ### Steps in a balanced text -/

/-- If a bracket of a balanced text makes the machine jump, then it has a partner. -/
lemma exists_afterPartner_of_jump? {behind ahead : List Char} {instruction : Instruction}
    {direction : Direction}
    (hplace : Delimiters.loop.Balanced (Place.text ⟨behind, instruction.char :: ahead⟩))
    (hjump : m.jump? instruction = some direction) :
    ∃ place, Place.afterPartner .loop direction ⟨behind, instruction.char :: ahead⟩ =
      some place := by
  unfold jump? at hjump
  split at hjump
  · split at hjump
    · cases hjump
      exact Place.exists_afterPartner_forward (by decide) hplace
    · cases hjump
  · split at hjump
    · cases hjump
    · cases hjump
      exact Place.exists_afterPartner_backward (by decide) hplace
  · cases hjump

/-- A step from a place in a balanced text stays in the text, or the run ends there, and
then in no other fault than one of a run. -/
theorem step_of_balanced {place : Place Char} (hplace : Delimiters.loop.Balanced place.text)
    (m : Machine) :
    (∃ place' m', m.step place = .next place' m' ∧ place'.text = place.text) ∨
      ∃ halt, m.step place = .halt halt ∧ ∀ fault, halt.result = .error fault → fault.OfRun := by
  obtain ⟨behind, ahead⟩ := place
  cases ahead with
  | nil =>
    right
    refine ⟨_, Configuration.haltsWith_nil behind m, ?_⟩
    intro fault hfault
    unfold Ending.halt at hfault
    dsimp only at hfault
    split at hfault
    · cases hfault
    · next hflush =>
      cases hfault
      exact ofRun_flush hflush
  | cons c ahead =>
    have hpass : Place.text ⟨c :: behind, ahead⟩ = Place.text ⟨behind, c :: ahead⟩ := by
      simp [Place.text]
    cases hc : Instruction.ofChar? c with
    | none =>
      left
      refine ⟨⟨c :: behind, ahead⟩, m, ?_, hpass⟩
      simp only [step, hc]
    | some instruction =>
      obtain rfl := Instruction.eq_char_of_ofChar? hc
      cases hjump : m.jump? instruction with
      | none =>
        rcases hperform : m.perform instruction with ⟨fault | _, m'⟩
        · right
          refine ⟨⟨.error fault, m'⟩, by simp only [step, hc, hjump, hperform], ?_⟩
          rintro _ ⟨⟩
          exact ofRun_perform hperform
        · left
          refine ⟨⟨instruction.char :: behind, ahead⟩, m', ?_, hpass⟩
          simp only [step, hc, hjump, hperform]
      | some direction =>
        left
        obtain ⟨place, hpartner⟩ := exists_afterPartner_of_jump? hplace hjump
        refine ⟨place, m, ?_, Place.text_of_afterPartner hpartner⟩
        simp only [step, hc, hjump, hpartner]

end Machine

/-! ### Runs in a balanced text -/

/-- The place in front of some byte of a text is in this text. -/
lemma Place.text_atByte (text : List Char) (offset : Nat) :
    (Place.atByte text offset).text = text := by
  have hskip : ∀ (offset : Nat) (behind ahead : List Char),
      (skipBytes offset behind ahead).text = behind.reverse ++ ahead := by
    intro offset behind ahead
    fun_induction skipBytes offset behind ahead with
    | case1 => rfl
    | case2 => rfl
    | case3 offset behind c ahead ih =>
      rw [ih, List.reverse_cons, List.append_assoc]
      rfl
  exact hskip offset [] text

namespace Configuration

variable {s t : Configuration}

/-- Whatever a run reaches from a place in a balanced text is a place in this text. -/
lemma Reaches.text_eq (h : s.Reaches t) (hs : Delimiters.loop.Balanced s.place.text) :
    t.place.text = s.place.text := by
  induction h with
  | refl => rfl
  | @tail t u _ hlead ih =>
    rw [← ih] at hs ⊢
    rcases Machine.step_of_balanced hs t.machine with ⟨place, m, hstep, htext⟩ | ⟨halt, hstep, -⟩
    · have hu : t.Leads ⟨place, m⟩ := hstep
      rw [hlead.unique hu]
      exact htext
    · exact absurd hlead (HaltsWith.not_leads hstep)

/-- A run that begins at a place in a balanced text stops for no bracket. -/
theorem Reaches.ofRun (h : s.Reaches t) (hs : Delimiters.loop.Balanced s.place.text)
    {halt : Halt} (hhalt : t.HaltsWith halt) {fault : Fault}
    (hfault : halt.result = .error fault) : fault.OfRun := by
  have ht : Delimiters.loop.Balanced t.place.text := by
    rw [h.text_eq hs]
    exact hs
  rcases Machine.step_of_balanced ht t.machine with ⟨place, m, hstep, -⟩ | ⟨halt', hstep, hrun⟩
  · exact absurd hstep (hhalt.not_leads (t := ⟨place, m⟩))
  · have heq : halt' = halt := by
      unfold HaltsWith at hhalt
      rw [hstep] at hhalt
      cases hhalt
      rfl
    exact hrun fault (heq ▸ hfault)

end Configuration

/-! ### Execution -/

/-- If all loop brackets are partnered, then a run from any byte on stops for no bracket. -/
lemma ofRun_of_reaches_atByte {code : List Char}
    (hcode : Delimiters.loop.firstUnmatched code = none)
    {start : Nat} {m : Machine} {s : Configuration}
    (hs : Configuration.Reaches ⟨Place.atByte code start, m⟩ s) {halt : Halt}
    (hhalt : s.HaltsWith halt) {fault : Fault} (hfault : halt.result = .error fault) :
    fault.OfRun := by
  have hbalanced := (Delimiters.firstUnmatched_eq_none_iff (by decide)).mp hcode
  rw [← Place.text_atByte code start] at hbalanced
  exact hs.ofRun hbalanced hhalt hfault

section Execute

variable {fuel : Nat} {code : List Char} {start : Nat} {tape : Tape} {input : Input} {sink : Sink}
  {halt : Halt} {fault : Fault}

/-- If its loop brackets are partnered, `execute` runs the minimized program from the place that
it is started at. -/
lemma execute_eq_run (hcode : Delimiters.loop.firstUnmatched (minimize code) = none)
    (fuel start : Nat) (tape : Tape) (input : Input) (sink : Sink) :
    execute fuel code start tape input sink =
      Machine.run fuel (Place.atByte (minimize code) start) ⟨tape, input, sink, ""⟩ := by
  simp only [execute, hcode]

/-- If `execute` ends in a fault that no running program meets, then the program was refused for a
bracket, and nothing was run. -/
theorem exists_firstUnmatched_of_execute
    (h : execute fuel code start tape input sink = some halt)
    (hfault : halt.result = .error fault) (hkind : ¬ fault.OfRun) :
    ∃ side i position, Delimiters.loop.firstUnmatched (minimize code) = some (side, i) ∧
      halt = ⟨.error (.unmatchedDelimiter (Delimiters.loop.symbol side) position),
        ⟨tape, input, sink, ""⟩⟩ := by
  cases hcode : Delimiters.loop.firstUnmatched (minimize code) with
  | some unmatched =>
    obtain ⟨side, i⟩ := unmatched
    simp only [execute, hcode] at h
    exact ⟨side, i, _, rfl, (Option.some.inj h).symm⟩
  | none =>
    rw [execute_eq_run hcode] at h
    obtain ⟨s, hreach, hhalt⟩ := Configuration.exists_run_iff
      (s := ⟨Place.atByte (minimize code) start, ⟨tape, input, sink, ""⟩⟩).mp ⟨fuel, h⟩
    exact absurd (ofRun_of_reaches_atByte hcode hreach hhalt hfault) hkind

/-- If `execute` ends in a fault that no running program meets, then nothing was run. -/
theorem machine_of_execute (h : execute fuel code start tape input sink = some halt)
    (hfault : halt.result = .error fault) (hkind : ¬ fault.OfRun) :
    halt.machine = ⟨tape, input, sink, ""⟩ := by
  obtain ⟨side, i, position, -, rfl⟩ := exists_firstUnmatched_of_execute h hfault hkind
  rfl

end Execute

end TapeTower
