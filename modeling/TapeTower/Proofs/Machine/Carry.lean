import TapeTower.Proofs.Machine.Reach

/-!
# Carrying out a piece of a program

`Carries guard text m e` says how the machine fares with a piece of a program,
wherever the piece stands: starting with `m` in front of `text`, it comes to the
outcome `e`, and the guard holds at every character that is come to on the way.
The rules below put such facts together along the shape of the text, one rule for
each thing that can happen at a character or a loop.

A whole program that is carried out halts with its outcome
(`Carries.exists_haltsWith`), and since the machine is deterministic the guard then
holds of everything that the run reaches (`Allowed.of_reachesBy`).
-/

namespace TapeTower

/-- A condition under which the characters of a program may be come to. Loop
brackets always may. -/
structure Guard where
  /-- The machine may come to the character. -/
  Allows : Char → Machine → Prop
  opening : ∀ m, Allows '[' m
  closing : ∀ m, Allows ']' m

/-- The guard that allows everything. -/
def Guard.none : Guard where
  Allows _ _ := True
  opening _ := trivial
  closing _ := trivial

namespace Configuration

/-- The guard holds at the character ahead, if there is one. -/
def Allowed (guard : Guard) (s : Configuration) : Prop :=
  ∀ c ∈ s.place.ahead.head?, guard.Allows c s.machine

/-- Some steps lead from `s` to `t`, and the guard holds where they start. -/
abbrev ReachesBy (guard : Guard) : Configuration → Configuration → Prop :=
  Relation.ReflTransGen fun s t => s.Allowed guard ∧ s.Leads t

variable {guard : Guard}

/-- Steps under a guard are steps. -/
lemma ReachesBy.reaches {s t : Configuration} (h : ReachesBy guard s t) : s.Reaches t := by
  induction h with
  | refl => exact .refl
  | tail _ hstep ih => exact ih.tail hstep.2

/-- If a run under a guard ends with the guard in force, then the guard holds of
everything that the run reaches. -/
lemma Allowed.of_reachesBy {s t u : Configuration} {halt : Halt} (ht : t.Allowed guard)
    (hhalt : t.HaltsWith halt) (h : ReachesBy guard s t) (hu : s.Reaches u) :
    u.Allowed guard := by
  induction h using Relation.ReflTransGen.head_induction_on with
  | refl =>
    rcases hu.cases_head with rfl | ⟨t', hlead, -⟩
    · exact ht
    · exact absurd hlead hhalt.not_leads
  | head hstep _ ih =>
    rcases Reaches.of_leads hu hstep.2 with rfl | hu'
    · exact hstep.1
    · exact ih hu'

end Configuration

open TapeTower.Configuration

/-- The configuration `u` is where a piece of a program with the outcome `e` leaves the
run: at the place behind the piece, or where a fault ends the run. -/
def Ending.LeavesAt (guard : Guard) (e : Ending) (place : Place Char) (u : Configuration) :
    Prop :=
  match e with
  | (.ok (), m) => u = ⟨place, m⟩
  | (.error fault, m) => u.Allowed guard ∧ u.HaltsWith ⟨.error fault, m⟩

/-- Wherever `text` stands in a program, the machine `m` in front of it comes to the
outcome `e` under the guard. -/
def Carries (guard : Guard) (text : List Char) (m : Machine) (e : Ending) : Prop :=
  ∀ behind ahead, ∃ u, ReachesBy guard ⟨⟨behind, text ++ ahead⟩, m⟩ u ∧
    Ending.LeavesAt guard e ⟨text.reverse ++ behind, ahead⟩ u

variable {guard : Guard}

/-! ### Straight text -/

/-- The empty text changes nothing. -/
lemma carries_nil (m : Machine) : Carries guard [] m (.ok (), m) :=
  fun _ _ => ⟨_, .refl, rfl⟩

/-- A text that is carried out leads on to whatever follows it. -/
lemma Carries.append {s t : List Char} {m m' : Machine} {e : Ending}
    (hs : Carries guard s m (.ok (), m')) (ht : Carries guard t m' e) :
    Carries guard (s ++ t) m e := by
  intro behind ahead
  obtain ⟨_, hreach, rfl⟩ := hs behind (t ++ ahead)
  obtain ⟨u, hreach', hu⟩ := ht (s.reverse ++ behind) ahead
  refine ⟨u, ?_, ?_⟩
  · rw [List.append_assoc]
    exact hreach.trans hreach'
  · rwa [List.reverse_append, List.append_assoc]

/-- A fault in a text leaves what follows it without effect. -/
lemma Carries.append_of_fault {s : List Char} {m m' : Machine} {fault : Fault}
    (hs : Carries guard s m (.error fault, m')) (t : List Char) :
    Carries guard (s ++ t) m (.error fault, m') := by
  intro behind ahead
  obtain ⟨u, hreach, hu⟩ := hs behind (t ++ ahead)
  refine ⟨u, ?_, hu⟩
  rwa [List.append_assoc]

/-- One character that is no loop bracket has its effect. -/
lemma carries_singleton {c : Char} (hc : IsPlain c) {m : Machine} (hallows : guard.Allows c m) :
    Carries guard [c] m (m.act c) := by
  intro behind ahead
  have hallowed : Allowed guard ⟨⟨behind, c :: ahead⟩, m⟩ := by
    intro c' hc'
    cases hc'
    exact hallows
  have hstep := Machine.step_cons_of_isPlain hc behind ahead m
  rcases hact : m.act c with ⟨_ | _, m'⟩
  · rw [hact] at hstep
    exact ⟨_, .refl, hallowed, hstep⟩
  · rw [hact] at hstep
    have hlead : Leads ⟨⟨behind, c :: ahead⟩, m⟩ ⟨⟨c :: behind, ahead⟩, m'⟩ := hstep
    exact ⟨_, .single ⟨hallowed, hlead⟩, rfl⟩

/-- A text without loop brackets has its effect. -/
lemma carries_actAll {text : List Char} (htext : ∀ c ∈ text, IsPlain c) (m : Machine) :
    Carries .none text m (m.actAll text) := by
  induction text generalizing m with
  | nil => exact carries_nil m
  | cons c text ih =>
    have hhead : Carries .none [c] m (m.act c) :=
      carries_singleton (htext c (by simp)) trivial
    rw [Machine.actAll]
    rcases hact : m.act c with ⟨_ | _, m'⟩
    · rw [hact] at hhead
      exact hhead.append_of_fault text
    · rw [hact] at hhead
      exact hhead.append (ih (fun c' hc' => htext c' (by simp [hc'])) m')

/-- A run comes to the end of a text without loop brackets that is carried out. -/
lemma reaches_of_actAll {text : List Char} (htext : ∀ c ∈ text, IsPlain c) {m m' : Machine}
    (hact : m.actAll text = (.ok (), m')) (behind ahead : List Char) :
    Reaches ⟨⟨behind, text ++ ahead⟩, m⟩ ⟨⟨text.reverse ++ behind, ahead⟩, m'⟩ := by
  have hcarries := carries_actAll htext m
  rw [hact] at hcarries
  obtain ⟨_, hreach, rfl⟩ := hcarries behind ahead
  exact hreach.reaches

/-! ### Loops -/

variable {body rest : List Char} {m m' : Machine} {e : Ending}

/-- A loop at a zero cell is passed. -/
lemma carries_loop_skip (hbody : Delimiters.loop.Balanced body) (hm : m.tape.current = 0)
    (hrest : Carries guard rest m e) : Carries guard ('[' :: (body ++ ']' :: rest)) m e := by
  intro behind ahead
  obtain ⟨u, hreach, hu⟩ := hrest (']' :: (body.reverse ++ '[' :: behind)) ahead
  have hstep := Machine.step_loop_begin hbody behind (rest ++ ahead) m
  rw [if_pos hm] at hstep
  have hlead : Leads ⟨⟨behind, '[' :: (body ++ ']' :: (rest ++ ahead))⟩, m⟩
      ⟨⟨']' :: (body.reverse ++ '[' :: behind), rest ++ ahead⟩, m⟩ := hstep
  refine ⟨u, ?_, by simpa using hu⟩
  have hallowed : Allowed guard ⟨⟨behind, '[' :: (body ++ ']' :: (rest ++ ahead))⟩, m⟩ := by
    intro c hc
    cases hc
    exact guard.opening m
  simpa using Relation.ReflTransGen.head ⟨hallowed, hlead⟩ hreach

/-- A loop at a cell that is not zero begins with its body. -/
lemma reachesBy_body (hbody : Delimiters.loop.Balanced body) (hm : m.tape.current ≠ 0)
    (behind : List Char) {u : Configuration}
    (h : ReachesBy guard ⟨⟨'[' :: behind, body ++ ']' :: rest⟩, m⟩ u) :
    ReachesBy guard ⟨⟨behind, '[' :: (body ++ ']' :: rest)⟩, m⟩ u := by
  have hstep := Machine.step_loop_begin hbody behind rest m
  rw [if_neg hm] at hstep
  have hlead : Leads ⟨⟨behind, '[' :: (body ++ ']' :: rest)⟩, m⟩
      ⟨⟨'[' :: behind, body ++ ']' :: rest⟩, m⟩ := hstep
  refine Relation.ReflTransGen.head ⟨?_, hlead⟩ h
  intro c hc
  cases hc
  exact guard.opening m

/-- A fault in the body of a loop ends the run. -/
lemma carries_loop_fault (hbody : Delimiters.loop.Balanced body) (hm : m.tape.current ≠ 0)
    {fault : Fault} (hrun : Carries guard body m (.error fault, m')) :
    Carries guard ('[' :: (body ++ ']' :: rest)) m (.error fault, m') := by
  intro behind ahead
  obtain ⟨u, hreach, hu⟩ := hrun ('[' :: behind) (']' :: (rest ++ ahead))
  refine ⟨u, ?_, hu⟩
  simpa using reachesBy_body hbody hm behind hreach

/-- The end of a loop leads on as its beginning does. -/
lemma reachesBy_loop_end (hbody : Delimiters.loop.Balanced body) (behind : List Char)
    {u : Configuration} (hu : u ≠ ⟨⟨behind, '[' :: (body ++ ']' :: rest)⟩, m⟩)
    (h : ReachesBy guard ⟨⟨behind, '[' :: (body ++ ']' :: rest)⟩, m⟩ u) :
    ReachesBy guard ⟨⟨body.reverse ++ '[' :: behind, ']' :: rest⟩, m⟩ u := by
  rcases h.cases_head with rfl | ⟨t, ⟨-, hlead⟩, htail⟩
  · exact absurd rfl hu
  · refine htail.head ⟨?_, ?_⟩
    · intro c hc
      cases hc
      exact guard.closing m
    · unfold Leads at hlead ⊢
      rwa [Machine.step_loop_end hbody]

/-- A loop never is where a run leaves it: it leads on, and its end lies behind it. -/
lemma ne_loop_of_leavesAt (hbody : Delimiters.loop.Balanced body) {behind passed ahead : List Char}
    {u : Configuration} (h : Ending.LeavesAt guard e ⟨passed, ahead⟩ u) :
    u ≠ ⟨⟨behind, '[' :: (body ++ ']' :: (rest ++ ahead))⟩, m⟩ := by
  rintro rfl
  rcases e with ⟨_ | _, m'⟩
  · have hstep := Machine.step_loop_begin hbody behind (rest ++ ahead) m
    have hhalt := h.2
    unfold HaltsWith at hhalt
    rw [hstep] at hhalt
    split at hhalt <;> cases hhalt
  · have hahead := congrArg (fun s : Configuration => s.place.ahead.length) h
    simp only [List.length_cons, List.length_append] at hahead
    omega

/-- A loop at a cell that is not zero carries out its body and then is begun again. -/
lemma carries_loop_again (hbody : Delimiters.loop.Balanced body) (hm : m.tape.current ≠ 0)
    (hrun : Carries guard body m (.ok (), m'))
    (hagain : Carries guard ('[' :: (body ++ ']' :: rest)) m' e) :
    Carries guard ('[' :: (body ++ ']' :: rest)) m e := by
  intro behind ahead
  obtain ⟨_, hreach, rfl⟩ := hrun ('[' :: behind) (']' :: (rest ++ ahead))
  obtain ⟨u, hreach', hu⟩ := hagain behind ahead
  refine ⟨u, ?_, hu⟩
  have hend : ReachesBy guard ⟨⟨body.reverse ++ '[' :: behind, ']' :: (rest ++ ahead)⟩, m'⟩ u :=
    reachesBy_loop_end hbody behind (ne_loop_of_leavesAt hbody hu) (by simpa using hreach')
  simpa using reachesBy_body hbody hm behind (hreach.trans hend)

/-! ### Whole programs -/

/-- A whole program that is carried out halts with its outcome, and the guard is in force
there too. -/
lemma Carries.exists_haltsWith {code : List Char} (h : Carries guard code m e) :
    ∃ u, ReachesBy guard (start code m) u ∧ u.Allowed guard ∧ u.HaltsWith (Ending.halt e) := by
  obtain ⟨u, hreach, hu⟩ := h [] []
  rw [List.append_nil] at hreach
  refine ⟨u, hreach, ?_⟩
  rcases e with ⟨_ | _, m'⟩
  · exact hu
  · cases hu
    exact ⟨by simp [Allowed], haltsWith_nil _ _⟩

end TapeTower
