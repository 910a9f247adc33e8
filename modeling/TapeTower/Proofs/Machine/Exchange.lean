import TapeTower.Proofs.Machine.Program

/-!
# Exchanging straight text

Two programs with the same loops differ only in their straight parts. An `Exchange` says which
straight texts may be put in the place of which others, and names the configurations that a
run has to keep clear of for this to go unnoticed. All that has to be shown of a single straight
text is that it has the effect of the other one; from this it follows by induction along the
structured runs that the whole programs run alike (`Exchange.run_iff`).

That a run keeps clear is handed on to each part of the program that a structured run enters
(the namespace `Exchange.Keeps`): the part stands somewhere in a text from where the run is
still the same.
-/

namespace TapeTower

/-! ### Straight text between brackets -/

/-- A text that ends here or goes on with a loop bracket. -/
def Bounds (text : List Char) : Prop := ∀ c ∈ text.head?, c = '[' ∨ c = ']'

lemma bounds_nil : Bounds [] := by
  simp [Bounds]

lemma bounds_begin (text : List Char) : Bounds ('[' :: text) := by
  simp [Bounds]

lemma bounds_end (text : List Char) : Bounds (']' :: text) := by
  simp [Bounds]

/-- The straight text that a program starts with. -/
def Program.lead : Program → Straight
  | straight s => s
  | loop before _ _ => before

namespace Configuration

/-- Nowhere on the run from here is a configuration of this kind. -/
def Avoids (Forbids : Configuration → Prop) (s : Configuration) : Prop :=
  ∀ t, s.Reaches t → ¬ Forbids t

namespace Avoids

variable {Forbids : Configuration → Prop} {s t : Configuration}

lemma of_reaches (h : s.Avoids Forbids) (hreach : s.Reaches t) : t.Avoids Forbids :=
  fun u hu => h u (hreach.trans hu)

/-- The run goes on with a step. -/
lemma of_step {place : Place Char} {m : Machine} (hs : ¬ Forbids s)
    (hstep : s.machine.step s.place = .next place m) (h : Avoids Forbids ⟨place, m⟩) :
    s.Avoids Forbids := by
  intro u hu
  rcases Reaches.of_leads hu (t := ⟨place, m⟩) hstep with rfl | hu
  · exact hs
  · exact h u hu

/-- The run ends here. -/
lemma of_haltsWith {halt : Halt} (hs : ¬ Forbids s) (hhalt : s.HaltsWith halt) :
    s.Avoids Forbids := by
  intro u hu
  rcases hu.cases_head with rfl | ⟨t, hlead, -⟩
  · exact hs
  · exact absurd hlead hhalt.not_leads

end Avoids

end Configuration

open TapeTower.Configuration

/-- Straight text that may be put in the place of other straight text, wherever that stands
between loop brackets, on runs that come through no configuration of a certain kind. -/
structure Exchange where
  /-- The second text may be put in the place of the first. -/
  Takes : Straight → Straight → Prop
  /-- The run has to keep clear of the configuration. -/
  Forbids : Configuration → Prop
  takes_empty : Takes .empty .empty
  not_forbids : ∀ {behind ahead m}, Bounds ahead → ¬ Forbids ⟨⟨behind, ahead⟩, m⟩
  actAll_eq : ∀ {s t behind ahead m}, Takes s t → Bounds behind → Bounds ahead →
    Avoids Forbids ⟨⟨behind, s.1 ++ ahead⟩, m⟩ → m.actAll t.1 = m.actAll s.1

namespace Exchange

/-- The second program is the first with other straight parts. -/
inductive Relates (x : Exchange) : Program → Program → Prop
  | straight {s t} (h : x.Takes s t) : Relates x (.straight s) (.straight t)
  | loop {before before' body body' rest rest'} (hbefore : x.Takes before before')
      (hbody : Relates x body body') (hrest : Relates x rest rest') :
      Relates x (.loop before body rest) (.loop before' body' rest')

variable {x : Exchange}

/-- Rewriting the straight parts of a program exchanges them. -/
lemma relates_map {f : Straight → Straight} (h : ∀ s, x.Takes s (f s)) (p : Program) :
    x.Relates p (p.map f) := by
  induction p with
  | straight s => exact .straight (h s)
  | loop before body rest ihbody ihrest => exact .loop (h before) ihbody ihrest

lemma Relates.lead {p q : Program} (h : x.Relates p q) : x.Takes p.lead q.lead := by
  cases h with
  | straight h => exact h
  | loop hbefore => exact hbefore

/-- The program stands somewhere in a text from where the run keeps clear. Behind a program
that is begun in the middle, without straight text of its own, there may be anything. -/
def Keeps (x : Exchange) (p : Program) (m : Machine) : Prop :=
  ∃ behind ahead, (p.lead = .empty ∨ Bounds behind) ∧ Bounds ahead ∧
    Avoids x.Forbids ⟨⟨behind, p.text ++ ahead⟩, m⟩

/-! ### Keeping clear -/

namespace Keeps

variable {p q body rest : Program} {before : Straight} {m m₁ m₂ : Machine}

/-- A program of which nothing stands in front or behind. -/
lemma of_start (h : (start p.text m).Avoids x.Forbids) : x.Keeps p m := by
  refine ⟨[], [], Or.inr bounds_nil, bounds_nil, ?_⟩
  rwa [List.append_nil]

/-- The straight text in front has the effect of the one that is put in its place. -/
lemma actAll_lead (h : x.Keeps p m) (hpq : x.Relates p q) :
    m.actAll q.lead.1 = m.actAll p.lead.1 := by
  obtain ⟨behind, ahead, hempty | hbehind, hahead, hkeeps⟩ := h
  · refine x.actAll_eq hpq.lead bounds_nil bounds_nil ?_
    rw [hempty]
    exact .of_haltsWith (x.not_forbids bounds_nil) (haltsWith_nil [] m)
  · cases p with
    | straight s => exact x.actAll_eq hpq.lead hbehind hahead hkeeps
    | loop before body rest =>
      rw [Program.text, List.append_assoc, List.cons_append] at hkeeps
      exact x.actAll_eq hpq.lead hbehind (bounds_begin _) hkeeps

/-- The run keeps clear from the first loop on. -/
lemma exists_keeps_loop (h : x.Keeps (.loop before body rest) m)
    (hbefore : m.actAll before.1 = (.ok (), m₁)) :
    ∃ behind ahead, Bounds ahead ∧ Avoids x.Forbids
      ⟨⟨behind, '[' :: (body.text ++ ']' :: (rest.text ++ ahead))⟩, m₁⟩ := by
  obtain ⟨behind, ahead, -, hahead, hkeeps⟩ := h
  have hreach := reaches_of_actAll before.2 hbefore behind
    ('[' :: (body.text ++ ']' :: (rest.text ++ ahead)))
  refine ⟨before.1.reverse ++ behind, ahead, hahead, hkeeps.of_reaches ?_⟩
  simpa [Program.text] using hreach

/-- The run keeps clear behind a loop that is passed. -/
lemma skipped (h : x.Keeps (.loop before body rest) m)
    (hbefore : m.actAll before.1 = (.ok (), m₁)) (hcell : m₁.tape.current = 0) :
    x.Keeps rest m₁ := by
  obtain ⟨behind, ahead, hahead, hkeeps⟩ := h.exists_keeps_loop hbefore
  have hstep := Machine.step_loop_begin body.balanced_text behind (rest.text ++ ahead) m₁
  rw [if_pos hcell] at hstep
  exact ⟨_, ahead, Or.inr (bounds_end _), hahead, hkeeps.of_reaches (.single hstep)⟩

/-- The run keeps clear in the body of a loop that is begun. -/
lemma begun (h : x.Keeps (.loop before body rest) m)
    (hbefore : m.actAll before.1 = (.ok (), m₁)) (hcell : m₁.tape.current ≠ 0) :
    x.Keeps body m₁ := by
  obtain ⟨behind, ahead, hahead, hkeeps⟩ := h.exists_keeps_loop hbefore
  have hstep := Machine.step_loop_begin body.balanced_text behind (rest.text ++ ahead) m₁
  rw [if_neg hcell] at hstep
  exact ⟨_, _, Or.inr (bounds_begin _), bounds_end _, hkeeps.of_reaches (.single hstep)⟩

/-- The run keeps clear when a loop is begun again. -/
lemma again (h : x.Keeps (.loop before body rest) m)
    (hbefore : m.actAll before.1 = (.ok (), m₁)) (hcell : m₁.tape.current ≠ 0)
    (hbody : body.Run m₁ (.ok (), m₂)) : x.Keeps (.loop .empty body rest) m₂ := by
  obtain ⟨behind, ahead, hahead, hkeeps⟩ := h.exists_keeps_loop hbefore
  obtain ⟨_, hreach, rfl⟩ := hbody.carries ('[' :: behind) (']' :: (rest.text ++ ahead))
  have hend := hkeeps.of_reaches (reachesBy_body body.balanced_text hcell behind hreach).reaches
  refine ⟨behind, ahead, Or.inl rfl, hahead, ?_⟩
  -- The end of the body leads where the beginning of the loop does.
  intro u hu
  have htext : (Program.loop .empty body rest).text ++ ahead =
      '[' :: (body.text ++ ']' :: (rest.text ++ ahead)) := by
    simp [Program.text, Straight.empty]
  rw [htext] at hu
  rcases hu.cases_head with rfl | ⟨t, hlead, htail⟩
  · exact x.not_forbids (bounds_begin _)
  · refine hend u (htail.head ?_)
    unfold Leads at hlead ⊢
    rwa [Machine.step_loop_end body.balanced_text]

end Keeps

/-! ### Structured runs -/

variable {p q : Program} {m : Machine} {e : Ending}

/-- Structured runs stay runs when the straight parts are exchanged. -/
theorem run_of_relates (hpq : x.Relates p q) (h : p.Run m e) (hkeeps : x.Keeps p m) :
    q.Run m e := by
  induction h generalizing q with
  | straight s m =>
    have heffect := hkeeps.actAll_lead hpq
    cases hpq with
    | @straight _ t _ =>
      change m.actAll t.1 = m.actAll s.1 at heffect
      rw [← heffect]
      exact .straight t m
  | fault hbefore =>
    have heffect := hkeeps.actAll_lead hpq
    cases hpq with
    | loop _ _ _ => exact .fault (heffect.trans hbefore)
  | skip hbefore hcell _ ih =>
    have heffect := hkeeps.actAll_lead hpq
    cases hpq with
    | loop _ _ hrest =>
      exact .skip (heffect.trans hbefore) hcell (ih hrest (hkeeps.skipped hbefore hcell))
  | again hbefore hcell hrun _ ihbody ihagain =>
    have heffect := hkeeps.actAll_lead hpq
    have hagain := hkeeps.again hbefore hcell hrun
    cases hpq with
    | loop hlead hbody hrest =>
      exact .again (heffect.trans hbefore) hcell (ihbody hbody (hkeeps.begun hbefore hcell))
        (ihagain (.loop x.takes_empty hbody hrest) hagain)
  | faultInside hbefore hcell _ ih =>
    have heffect := hkeeps.actAll_lead hpq
    cases hpq with
    | loop _ hbody _ =>
      exact .faultInside (heffect.trans hbefore) hcell (ih hbody (hkeeps.begun hbefore hcell))

/-- Every structured run of the program with exchanged parts is one of the program. -/
theorem run_of_related (hpq : x.Relates p q) (h : q.Run m e) (hkeeps : x.Keeps p m) :
    p.Run m e := by
  induction h generalizing p with
  | straight t m =>
    have heffect := hkeeps.actAll_lead hpq
    cases hpq with
    | @straight s _ _ =>
      change m.actAll t.1 = m.actAll s.1 at heffect
      rw [heffect]
      exact .straight s m
  | fault hbefore =>
    have heffect := hkeeps.actAll_lead hpq
    cases hpq with
    | loop _ _ _ => exact .fault (heffect.symm.trans hbefore)
  | skip hbefore hcell _ ih =>
    have heffect := hkeeps.actAll_lead hpq
    cases hpq with
    | loop _ _ hrest =>
      have hraw := heffect.symm.trans hbefore
      exact .skip hraw hcell (ih hrest (hkeeps.skipped hraw hcell))
  | again hbefore hcell _ _ ihbody ihagain =>
    have heffect := hkeeps.actAll_lead hpq
    cases hpq with
    | loop hlead hbody hrest =>
      have hraw := heffect.symm.trans hbefore
      have hrun := ihbody hbody (hkeeps.begun hraw hcell)
      exact .again hraw hcell hrun
        (ihagain (.loop x.takes_empty hbody hrest) (hkeeps.again hraw hcell hrun))
  | faultInside hbefore hcell _ ih =>
    have heffect := hkeeps.actAll_lead hpq
    cases hpq with
    | loop _ hbody _ =>
      have hraw := heffect.symm.trans hbefore
      exact .faultInside hraw hcell (ih hbody (hkeeps.begun hraw hcell))

/-- Programs with exchanged straight parts have the same structured runs, as long as these
keep clear of what the exchange forbids. -/
theorem run_iff (hpq : x.Relates p q) (hkeeps : x.Keeps p m) : q.Run m e ↔ p.Run m e :=
  ⟨fun h => run_of_related hpq h hkeeps, fun h => run_of_relates hpq h hkeeps⟩

/-! ### The same effect everywhere -/

/-- Straight text may be put in the place of another one of the same effect. -/
def sameEffect : Exchange where
  Takes s t := ∀ m : Machine, m.actAll t.1 = m.actAll s.1
  Forbids _ := False
  takes_empty _ := rfl
  not_forbids _ := not_false
  actAll_eq h _ _ _ := h _

lemma sameEffect_refl (p : Program) : sameEffect.Relates p p := by
  induction p with
  | straight s => exact .straight fun _ => rfl
  | loop before body rest ihbody ihrest => exact .loop (fun _ => rfl) ihbody ihrest

end Exchange

end TapeTower
