import Mathlib.Data.Nat.Init
import Mathlib.Logic.Relation
import Mathlib.Tactic.Common
import TapeTower.Machine
import TapeTower.Proofs.Balance

/-!
# Reachability in the machine

A `Configuration` is a place in a program together with the machine that stands
there. `Leads` is one step between configurations and `Reaches` is its closure;
a run with enough fuel answers exactly what the last configuration that is
reached halts with (`exists_run_iff`).

The second half says what a step does at each kind of character. A character
that is no loop bracket is carried out and passed (`step_cons_of_isPlain`), and at
the two ends of a loop the machine does the very same thing: it goes into the
body or past the loop (`step_loop_begin`, `step_loop_end`).
-/

namespace TapeTower

/-- A place in a program and the machine as it is there. -/
structure Configuration where
  place : Place Char
  machine : Machine

namespace Configuration

/-- The machine in front of a whole program. -/
def start (code : List Char) (m : Machine) : Configuration := ⟨⟨[], code⟩, m⟩

/-- One step leads from `s` to `t`. -/
def Leads (s t : Configuration) : Prop :=
  s.machine.step s.place = .next t.place t.machine

/-- Some steps, possibly none, lead from `s` to `t`. -/
abbrev Reaches : Configuration → Configuration → Prop := Relation.ReflTransGen Leads

/-- The run ends at `s`. -/
def HaltsWith (s : Configuration) (halt : Halt) : Prop :=
  s.machine.step s.place = .halt halt

/-! ### Determinism -/

/-- A step leads to one configuration only. -/
lemma Leads.unique {s t u : Configuration} (ht : s.Leads t) (hu : s.Leads u) : t = u := by
  cases t
  cases u
  unfold Leads at ht hu
  rw [ht] at hu
  cases hu
  rfl

/-- A run does not go on where it ends. -/
lemma HaltsWith.not_leads {s t : Configuration} {halt : Halt} (h : s.HaltsWith halt) :
    ¬ s.Leads t := by
  intro ht
  unfold HaltsWith at h
  unfold Leads at ht
  rw [h] at ht
  cases ht

/-- Whatever is reached from `s` other than `s` itself is reached from its successor. -/
lemma Reaches.of_leads {s t u : Configuration} (h : s.Reaches u) (ht : s.Leads t) :
    u = s ∨ t.Reaches u := by
  rcases h.cases_head with rfl | ⟨t', ht', htail⟩
  · exact Or.inl rfl
  · rw [ht.unique ht']
    exact Or.inr htail

/-! ### Runs -/

/-- A run with enough fuel answers `halt` exactly if it reaches a configuration that
halts with it. -/
theorem exists_run_iff {s : Configuration} {halt : Halt} :
    (∃ fuel, s.machine.run fuel s.place = some halt) ↔
      ∃ t, s.Reaches t ∧ t.HaltsWith halt := by
  constructor
  · rintro ⟨fuel, hrun⟩
    induction fuel generalizing s with
    | zero => cases hrun
    | succ fuel ih =>
      rw [Machine.run] at hrun
      cases hstep : s.machine.step s.place with
      | next place m =>
        rw [hstep] at hrun
        have hlead : s.Leads ⟨place, m⟩ := hstep
        obtain ⟨t, hreach, hhalt⟩ := ih (s := ⟨place, m⟩) hrun
        exact ⟨t, hreach.head hlead, hhalt⟩
      | halt halt' =>
        rw [hstep] at hrun
        cases hrun
        exact ⟨s, .refl, hstep⟩
  · rintro ⟨t, hreach, hhalt⟩
    induction hreach using Relation.ReflTransGen.head_induction_on with
    | refl => exact ⟨1, by rw [Machine.run, hhalt]⟩
    | head hlead _ ih =>
      obtain ⟨fuel, hrun⟩ := ih
      exact ⟨fuel + 1, by rw [Machine.run, hlead]; exact hrun⟩

end Configuration

/-! ### Straight text -/

/-- A character that is no loop bracket. -/
def IsPlain (c : Char) : Prop := c ≠ '[' ∧ c ≠ ']'

/-- How the machine fares with a piece of a program: it carries the piece out, or a
fault stops it. -/
abbrev Ending := Except Fault Unit × Machine

namespace Machine

/-- The effect of one character that is no loop bracket; a comment has none. -/
def act (m : Machine) (c : Char) : Ending :=
  match Instruction.ofChar? c with
  | some instruction => m.perform instruction
  | none => (.ok (), m)

/-- The effect of a text without loop brackets, up to its first fault. -/
def actAll : List Char → Machine → Ending
  | [], m => (.ok (), m)
  | c :: text, m =>
    match m.act c with
    | (.ok (), m) => actAll text m
    | (.error fault, m) => (.error fault, m)

/-- A text acts as its first part and, without a fault there, as the second. -/
lemma actAll_append (s t : List Char) (m : Machine) :
    actAll (s ++ t) m =
      match actAll s m with
      | (.ok (), m) => actAll t m
      | (.error fault, m) => (.error fault, m) := by
  induction s generalizing m with
  | nil => rfl
  | cons c s ih =>
    rw [List.cons_append, actAll, actAll]
    rcases m.act c with ⟨_ | _, m'⟩
    · rfl
    · exact ih m'

/-- No character outside the loop brackets makes the machine jump. -/
lemma jump?_eq_none {c : Char} (hc : IsPlain c) {instruction : Instruction}
    (h : Instruction.ofChar? c = some instruction) (m : Machine) :
    m.jump? instruction = none := by
  have hchar := Instruction.eq_char_of_ofChar? h
  cases instruction with
  | beginLoop => exact absurd hchar hc.1
  | endLoop => exact absurd hchar hc.2
  | _ => rfl

/-- A step at a character that is no loop bracket carries it out and passes it. -/
lemma step_cons_of_isPlain {c : Char} (hc : IsPlain c) (behind ahead : List Char) (m : Machine) :
    m.step ⟨behind, c :: ahead⟩ =
      match m.act c with
      | (.ok (), m) => .next ⟨c :: behind, ahead⟩ m
      | (.error fault, m) => .halt ⟨.error fault, m⟩ := by
  cases h : Instruction.ofChar? c with
  | none => simp only [step, act, h]
  | some instruction =>
    simp only [step, act, h, jump?_eq_none hc h]
    rcases m.perform instruction with ⟨_ | _, m'⟩ <;> rfl

/-! ### Loops -/

variable {body : List Char}

/-- At the beginning of a loop the machine goes into the body or past the loop. -/
lemma step_loop_begin (hbody : Delimiters.loop.Balanced body) (behind rest : List Char)
    (m : Machine) :
    m.step ⟨behind, '[' :: (body ++ ']' :: rest)⟩ =
      if m.tape.current = 0 then .next ⟨']' :: (body.reverse ++ '[' :: behind), rest⟩ m
      else .next ⟨'[' :: behind, body ++ ']' :: rest⟩ m := by
  have hpartner := Place.afterPartner_forward (d := .loop) (by decide) hbody behind rest
  by_cases h : m.tape.current = 0
  · simp only [step, Instruction.ofChar?, jump?, h]
    simp only [Delimiters.loop] at hpartner ⊢
    simp [hpartner]
  · simp [step, Instruction.ofChar?, jump?, h, perform]

/-- At the end of a loop the machine does as at its beginning. -/
lemma step_loop_end (hbody : Delimiters.loop.Balanced body) (behind rest : List Char)
    (m : Machine) :
    m.step ⟨body.reverse ++ '[' :: behind, ']' :: rest⟩ =
      m.step ⟨behind, '[' :: (body ++ ']' :: rest)⟩ := by
  have hpartner := Place.afterPartner_backward (d := .loop) (by decide) hbody behind rest
  rw [step_loop_begin hbody]
  by_cases h : m.tape.current = 0
  · simp [step, Instruction.ofChar?, jump?, h, perform]
  · simp only [step, Instruction.ofChar?, jump?, h]
    simp only [Delimiters.loop] at hpartner ⊢
    simp [hpartner]

/-! ### The end of a program -/

end Machine

/-- The end of a run whose program fared like this: a fault ends it, and otherwise
all output has to be delivered. -/
def Ending.halt : Ending → Halt
  | (.error fault, m) => ⟨.error fault, m⟩
  | (.ok (), m) =>
    match m.flush with
    | .ok () => ⟨.ok m.printed, m⟩
    | .error fault => ⟨.error fault, m⟩

/-- At the end of a program the run ends. -/
lemma Configuration.haltsWith_nil (behind : List Char) (m : Machine) :
    Configuration.HaltsWith ⟨⟨behind, []⟩, m⟩ (Ending.halt (.ok (), m)) := by
  unfold HaltsWith Ending.halt
  rw [Machine.step]
  dsimp only
  rcases m.flush with _ | _ <;> rfl

end TapeTower
