import TapeTower.Proofs.Machine.Reach

/-!
# Machines side by side

Two machines that run the same text take the same way through it if the instruction ahead makes
both of them jump or neither, and has the same result on both. `Progress.Rel.step` lifts a
relation between machines from one instruction to one step, and `Progress.Rel.run` lifts it from
steps to runs: both end, or neither does. If only some steps keep the relation, it is enough that
the run comes to no others (`Progress.Rel.run_of_reaches`).
-/

namespace TapeTower

/-- The machines fare with a piece of a program in the same way, and stay related. -/
def Ending.Rel (R : Machine → Machine → Prop) (e e' : Ending) : Prop := e.1 = e'.1 ∧ R e.2 e'.2

namespace Machine

variable {R : Machine → Machine → Prop} {H : Halt → Halt → Prop}

/-- Steps to the same place that leave related machines, or to related ends. -/
inductive Progress.Rel (R : Machine → Machine → Prop) (H : Halt → Halt → Prop) :
    Progress → Progress → Prop
  | next {place : Place Char} {m m' : Machine} (hm : R m m') :
      Rel R H (.next place m) (.next place m')
  | halt {halt halt' : Halt} (hhalt : H halt halt') : Rel R H (.halt halt) (.halt halt')

/-- A step keeps a relation that the instruction ahead keeps. What ends the run is a fault, or the
end of the program. -/
theorem Progress.Rel.step {m m' : Machine} {place : Place Char} (hm : R m m')
    (hend : place.ahead = [] → H (Ending.halt (.ok (), m)) (Ending.halt (.ok (), m')))
    (hfault : ∀ fault n n', R n n' → H ⟨.error fault, n⟩ ⟨.error fault, n'⟩)
    (hjump : ∀ instruction, m'.jump? instruction = m.jump? instruction)
    (hperform : ∀ instruction, place.ahead.head? = some instruction.char →
      Ending.Rel R (m.perform instruction) (m'.perform instruction)) :
    Progress.Rel R H (m.step place) (m'.step place) := by
  obtain ⟨behind, ahead⟩ := place
  cases ahead with
  | nil =>
    have hstep : ∀ n : Machine, n.step ⟨behind, []⟩ = .halt (Ending.halt (.ok (), n)) :=
      Configuration.haltsWith_nil behind
    rw [hstep, hstep]
    exact .halt (hend rfl)
  | cons c ahead =>
    cases hc : Instruction.ofChar? c with
    | none =>
      simp only [Machine.step, hc]
      exact .next hm
    | some instruction =>
      obtain rfl := Instruction.eq_char_of_ofChar? hc
      simp only [Machine.step, hc, hjump]
      cases m.jump? instruction with
      | some direction =>
        dsimp only
        cases Place.afterPartner .loop direction ⟨behind, instruction.char :: ahead⟩ with
        | none => exact .halt (hfault _ _ _ hm)
        | some place => exact .next hm
      | none =>
        obtain ⟨hresult, hleft⟩ := hperform instruction rfl
        generalize m.perform instruction = e at hresult hleft ⊢
        generalize m'.perform instruction = e' at hresult hleft ⊢
        obtain ⟨result, n⟩ := e
        obtain ⟨result', n'⟩ := e'
        obtain rfl : result = result' := hresult
        cases result with
        | error fault => exact .halt (hfault _ _ _ hleft)
        | ok _ => exact .next hleft

/-- A run keeps a relation that every step keeps to which the first machine comes. -/
theorem Progress.Rel.run_of_reaches {s : Configuration} {m' : Machine}
    (hstep : ∀ t n', s.Reaches t → R t.machine n' →
      Progress.Rel R H (t.machine.step t.place) (n'.step t.place))
    (hm : R s.machine m') (fuel : Nat) :
    Option.Rel H (s.machine.run fuel s.place) (m'.run fuel s.place) := by
  induction fuel generalizing s m' with
  | zero => exact .none
  | succ fuel ih =>
    have hfirst := hstep s m' .refl hm
    rw [Machine.run, Machine.run]
    generalize hlead : s.machine.step s.place = first at hfirst
    generalize m'.step s.place = first' at hfirst
    cases hfirst with
    | @next place n n' hn =>
      have hnext : s.Leads ⟨place, n⟩ := hlead
      exact ih (s := ⟨place, n⟩) (fun t n' ht => hstep t n' (ht.head hnext)) hn
    | halt hhalt => exact .some hhalt

/-- A run keeps a relation that all steps keep. -/
theorem Progress.Rel.run {m m' : Machine}
    (hstep : ∀ n n' place, R n n' → Progress.Rel R H (n.step place) (n'.step place))
    (hm : R m m') (fuel : Nat) (place : Place Char) :
    Option.Rel H (m.run fuel place) (m'.run fuel place) :=
  run_of_reaches (s := ⟨place, m⟩) (fun t n' _ hn => hstep t.machine n' t.place hn) hm fuel

end Machine

end TapeTower
