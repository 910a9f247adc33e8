import TapeTower.Proofs.Encoder.Grouping
import TapeTower.Proofs.Machine.Layout

/-!
# The loop encoder prints its text

The program of the loop encoder fills the cells of its targets group by group, and prints them
then. Filling is followed on cells that are given by a function of their index: a visit to the
cells of some targets changes the function at these (`carries_visit`, `change`), the counted loop
of a group makes such a visit for each ten (`carries_tensLoop`), and the visit after it brings
each cell to its code (`carries_fillGroup`).

Between two groups the cursor is on cell 0, which is zero, so that one group is filled after the
other (`carries_groups`). Since the groups are made of the targets of the text, the row of cells
is then the text itself.
-/

namespace TapeTower.Encoder

open Machine Alpha

/-! ### Cells that are changed -/

/-- The numbers in the cells, when those of the targets have been changed, one after the other. -/
def change (f : Target → UInt32 → UInt32) (targets : List Target) (cell : Nat → UInt32) :
    Nat → UInt32 :=
  targets.foldl (fun cell t => Function.update cell t.index (f t (cell t.index))) cell

variable {f : Target → UInt32 → UInt32} {targets : List Target} {cell : Nat → UInt32}

lemma change_cons (target : Target) :
    change f (target :: targets) cell =
      change f targets (Function.update cell target.index (f target (cell target.index))) := rfl

lemma change_append (others : List Target) :
    change f (targets ++ others) cell = change f others (change f targets cell) := by
  simp [change]

/-- Only the cells of the targets are changed. -/
lemma change_of_ne {i : Nat} (h : ∀ t ∈ targets, t.index ≠ i) :
    change f targets cell i = cell i := by
  induction targets generalizing cell with
  | nil => rfl
  | cons target targets ih =>
    obtain ⟨htarget, htargets⟩ := List.forall_mem_cons.mp h
    rw [change_cons, ih htargets, Function.update_of_ne htarget.symm]

/-- The cell of each target is changed once. -/
lemma change_of_mem (hnodup : (targets.map Target.index).Nodup) {target : Target}
    (h : target ∈ targets) : change f targets cell target.index = f target (cell target.index) := by
  induction targets generalizing cell with
  | nil => cases h
  | cons first targets ih =>
    rw [List.map_cons, List.nodup_cons] at hnodup
    have hne : ∀ t ∈ targets, t.index ≠ first.index := by
      intro t ht heq
      exact hnodup.1 (List.mem_map.mpr ⟨t, ht, heq⟩)
    rw [change_cons]
    rcases List.mem_cons.mp h with rfl | h
    · rw [change_of_ne hne, Function.update_self]
    · rw [ih hnodup.2 h, Function.update_of_ne (hne target h)]

/-- Cells are known by what they hold at the targets and elsewhere. -/
lemma eq_change {cell' : Nat → UInt32} (hnodup : (targets.map Target.index).Nodup)
    (hmem : ∀ t ∈ targets, cell' t.index = f t (cell t.index))
    (hne : ∀ i, (∀ t ∈ targets, t.index ≠ i) → cell' i = cell i) :
    cell' = change f targets cell := by
  funext i
  by_cases h : ∃ t ∈ targets, t.index = i
  · obtain ⟨t, ht, rfl⟩ := h
    rw [hmem t ht, change_of_mem hnodup ht]
  · push Not at h
    rw [hne i h, change_of_ne h]

/-- The order of the targets does not matter. -/
lemma change_perm {others : List Target} (hnodup : (targets.map Target.index).Nodup)
    (h : others.Perm targets) : change f others cell = change f targets cell := by
  have hothers : (others.map Target.index).Nodup :=
    (h.map Target.index).nodup_iff.mpr hnodup
  refine eq_change hnodup ?_ ?_
  · exact fun t ht => change_of_mem hothers (h.mem_iff.mpr ht)
  · exact fun i hi => change_of_ne fun t ht => hi t (h.mem_iff.mp ht)

/-! ### Visits -/

variable {m : Machine} {fill : Target → List Char} {start : Nat}

lemma balanced_times {c : Char} (hc : IsPlain c) (n : Nat) :
    Delimiters.loop.Balanced (times n c) := balanced_replicate hc n

lemma balanced_visit (hfill : ∀ t, Delimiters.loop.Balanced (fill t)) :
    Delimiters.loop.Balanced (visit fill start targets) := by
  induction targets generalizing start with
  | nil => exact balanced_times (by simp [IsPlain]) start
  | cons target targets ih =>
    exact ((balanced_times (by simp [IsPlain]) _).append (hfill target)).append ih

/-- The program text does this to the current cell, whatever the numbers in the cells, when the
cursor is on the cell of the target. -/
def Changes (m : Machine) (f : Target → UInt32 → UInt32) (fill : Target → List Char)
    (target : Target) : Prop :=
  ∀ cell, Carries .free (fill target) (m.lay target.index cell)
    (.ok (), m.lay target.index (Function.update cell target.index (f target (cell target.index))))

/-- A visit changes the cells of the targets and comes back to cell 0. -/
theorem carries_visit (hfill : ∀ t ∈ targets, Changes m f fill t)
    (hascending : targets.Pairwise fun s t => s.index < t.index)
    (hstart : ∀ t ∈ targets, start ≤ t.index) (hsize : ∀ t ∈ targets, t.index < m.tape.size)
    (hcursor : start < m.tape.size) :
    Carries .free (visit fill start targets) (m.lay start cell)
      (.ok (), m.lay 0 (change f targets cell)) := by
  induction targets generalizing start cell with
  | nil =>
    have hback : Carries .free (times start '<') (m.lay start cell)
        (.ok (), m.lay (start - start) cell) := carries_lay_left (Nat.le_refl start) hcursor
    rwa [Nat.sub_self] at hback
  | cons target targets ih =>
    obtain ⟨htarget, hfill⟩ := List.forall_mem_cons.mp hfill
    obtain ⟨hnext, hascending⟩ := List.pairwise_cons.mp hascending
    obtain ⟨hle, -⟩ := List.forall_mem_cons.mp hstart
    obtain ⟨hlt, hsize⟩ := List.forall_mem_cons.mp hsize
    have hgo : Carries .free (times (target.index - start) '>') (m.lay start cell)
        (.ok (), m.lay target.index cell) := by
      have hright : Carries .free (times (target.index - start) '>') (m.lay start cell)
          (.ok (), m.lay (start + (target.index - start)) cell) := carries_lay_right (by omega)
      rwa [Nat.add_sub_cancel' hle] at hright
    have hle' : ∀ t ∈ targets, target.index ≤ t.index :=
      fun t ht => Nat.le_of_lt (hnext t ht)
    exact (hgo.append (htarget cell)).append (ih hfill hascending hle' hsize hlt)

/-! ### The program text of a group -/

/-- The body of the loop of a group: each of its cells gets ten more, and cell 0 one less. -/
def tensBody (targets : List Target) : List Char :=
  '>' :: (visit (fun _ => times 10 '+') 1 targets ++ ['-'])

/-- How the cell of a target is corrected after its tens. -/
def correction (group : Nat) (target : Target) : List Char :=
  if 10 * group < target.code then times (target.code - 10 * group) '+'
  else times (10 * group - target.code) '-'

lemma fillGroup_eq (group : Nat) (targets : List Target) :
    fillGroup group targets =
      times group '+' ++ (loopText (tensBody targets) ++ visit (correction group) 0 targets) := by
  simp only [fillGroup, tensBody, loopText, List.append_assoc, List.cons_append, List.nil_append]
  rfl

lemma balanced_tensBody : Delimiters.loop.Balanced (tensBody targets) :=
  .symbol (by decide) (by decide)
    ((balanced_visit fun _ => balanced_times (by simp [IsPlain]) 10).append
      (balanced_times (by simp [IsPlain]) 1))

lemma balanced_correction (group : Nat) (target : Target) :
    Delimiters.loop.Balanced (correction group target) := by
  unfold correction
  split
  · exact balanced_times (by simp [IsPlain]) _
  · exact balanced_times (by simp [IsPlain]) _

lemma balanced_fillGroup (group : Nat) (targets : List Target) :
    Delimiters.loop.Balanced (fillGroup group targets) := by
  rw [fillGroup_eq]
  exact (balanced_times (by simp [IsPlain]) group).append
    ((Delimiters.Balanced.group balanced_tensBody .nil).append
      (balanced_visit (balanced_correction group)))

/-! ### The cells of a group -/

/-- The targets have cells of their own behind cell 0 on the tape of the machine, and codes that
fit into a cell. -/
structure Placed (m : Machine) (targets : List Target) : Prop where
  nodup : (targets.map Target.index).Nodup
  pos : ∀ t ∈ targets, 1 ≤ t.index
  lt_size : ∀ t ∈ targets, t.index < m.tape.size
  code_lt : ∀ t ∈ targets, t.code < UInt32.size

lemma Placed.ne_zero (h : Placed m targets) : ∀ t ∈ targets, t.index ≠ 0 :=
  fun t ht => Nat.ne_of_gt (h.pos t ht)

/-- What the loop does to the cell of a target when it is gone through `n` times. -/
def addTens (n : Nat) (_ : Target) (v : UInt32) : UInt32 := v + UInt32.ofNat (10 * n)

/-- What the correction of a target does to its cell. -/
def corrected (group : Nat) (target : Target) (v : UInt32) : UInt32 :=
  if 10 * group < target.code then v + UInt32.ofNat (target.code - 10 * group)
  else v - UInt32.ofNat (10 * group - target.code)

lemma changes_correction {target : Target} (h : target.index < m.tape.size) (group : Nat) :
    Changes m (corrected group) (correction group) target := by
  intro cell
  unfold correction corrected
  split
  · exact carries_lay_increments h _
  · exact carries_lay_decrements h _

/-- After its tens, the correction brings the cell of a target to its code. -/
lemma corrected_tens (group : Nat) (target : Target) :
    corrected group target (addTens group target 0) = UInt32.ofNat target.code := by
  rw [addTens, UInt32.zero_add]
  unfold corrected
  split
  · next h => rw [← UInt32.ofNat_add, Nat.add_sub_cancel' (Nat.le_of_lt h)]
  · next h =>
    have hsum : UInt32.ofNat (10 * group) =
        UInt32.ofNat target.code + UInt32.ofNat (10 * group - target.code) := by
      rw [← UInt32.ofNat_add, Nat.add_sub_cancel' (Nat.le_of_not_lt h)]
    rw [hsum]
    simp

/-- The number that the cell of a target is to hold. -/
def filled (target : Target) (_ : UInt32) : UInt32 := UInt32.ofNat target.code

/-- Going through the loop no times changes nothing. -/
lemma Placed.change_addTens_zero (h : Placed m targets) (hzero : cell 0 = 0) :
    change (addTens 0) targets (Function.update cell 0 0) = cell := by
  rw [← hzero, Function.update_eq_self]
  refine (eq_change h.nodup ?_ fun _ _ => rfl).symm
  intro t _
  simp [addTens]

/-- Once through the loop and then `n` times is `n + 1` times, whatever cell 0 counts. -/
lemma Placed.change_addTens_succ (h : Placed m targets) (n : Nat) (v : UInt32) :
    change (addTens n) targets
        (Function.update (Function.update (change (addTens 1) targets cell) 0 v) 0 0) =
      change (addTens (n + 1)) targets (Function.update cell 0 0) := by
  rw [Function.update_idem]
  refine eq_change h.nodup ?_ ?_
  · intro t ht
    have hne := h.ne_zero t ht
    rw [change_of_mem h.nodup ht, Function.update_of_ne hne, Function.update_of_ne hne,
      change_of_mem h.nodup ht]
    simp only [addTens]
    rw [UInt32.add_assoc, ← UInt32.ofNat_add, ← Nat.mul_add, Nat.add_comm]
  · intro i hi
    rw [change_of_ne hi]
    by_cases hzero : i = 0
    · rw [hzero, Function.update_self, Function.update_self]
    · rw [Function.update_of_ne hzero, Function.update_of_ne hzero, change_of_ne hi]

/-- The corrections after the tens fill cells that were zero. -/
lemma Placed.change_corrected (h : Placed m targets) (group : Nat)
    (hempty : ∀ t ∈ targets, cell t.index = 0) :
    change (corrected group) targets (change (addTens group) targets cell) =
      change filled targets cell := by
  refine eq_change h.nodup ?_ ?_
  · intro t ht
    rw [change_of_mem h.nodup ht, change_of_mem h.nodup ht, hempty t ht, corrected_tens, filled]
  · intro i hi
    rw [change_of_ne hi, change_of_ne hi]

/-! ### One group is filled -/

section Group

variable (hplaced : Placed m targets) (hascending : targets.Pairwise fun s t => s.index < t.index)
  (hsize : 1 < m.tape.size)

include hplaced hascending hsize

/-- The body of the loop adds ten to each cell of the targets and takes one from cell 0. -/
lemma carries_tensBody :
    Carries .free (tensBody targets) (m.lay 0 cell)
      (.ok (), m.lay 0 (Function.update (change (addTens 1) targets cell) 0 (cell 0 - 1))) := by
  have hgo : Carries .free ['>'] (m.lay 0 cell) (.ok (), m.lay 1 cell) :=
    carries_lay_right (n := 1) (by omega)
  have hvisit : Carries .free (visit (fun _ => times 10 '+') 1 targets) (m.lay 1 cell)
      (.ok (), m.lay 0 (change (addTens 1) targets cell)) :=
    carries_visit (fun t ht cell => carries_lay_increments (hplaced.lt_size t ht) 10) hascending
      hplaced.pos hplaced.lt_size hsize
  have hzero : change (addTens 1) targets cell 0 = cell 0 := change_of_ne hplaced.ne_zero
  have hdown : Carries .free ['-'] (m.lay 0 (change (addTens 1) targets cell))
      (.ok (), m.lay 0 (Function.update (change (addTens 1) targets cell) 0 (cell 0 - 1))) := by
    rw [← hzero]
    exact carries_lay_decrements (by omega) 1
  exact hgo.append (hvisit.append hdown)

/-- The loop adds ten to each cell of the targets as often as cell 0 says, which is zero then. -/
theorem carries_tensLoop {n : Nat} (hn : n < UInt32.size) (hcount : cell 0 = UInt32.ofNat n) :
    Carries .free (loopText (tensBody targets)) (m.lay 0 cell)
      (.ok (), m.lay 0 (change (addTens n) targets (Function.update cell 0 0))) := by
  have hcurrent : (m.lay 0 cell).tape.current = UInt32.ofNat n := by
    rw [current_lay (by omega), hcount]
  -- Cell 0 counts down, while the cells of the targets get ahead: so they vary in the induction.
  induction n generalizing cell with
  | zero =>
    rw [hplaced.change_addTens_zero hcount]
    exact carries_loop_skip balanced_tensBody hcurrent (carries_nil _)
  | succ n ih =>
    have hcell : (m.lay 0 cell).tape.current ≠ 0 := by
      rw [hcurrent]
      intro hzero
      have hmod := congrArg UInt32.toNat hzero
      rw [UInt32.toNat_ofNat_of_lt' hn] at hmod
      cases hmod
    let next := Function.update (change (addTens 1) targets cell) 0 (cell 0 - 1)
    have hnext : next 0 = UInt32.ofNat n := by
      simp only [next, Function.update_self, hcount, UInt32.ofNat_add]
      simp
    have hrest : Carries .free (loopText (tensBody targets)) (m.lay 0 next)
        (.ok (), m.lay 0 (change (addTens n) targets (Function.update next 0 0))) :=
      ih (by omega) hnext (by rw [current_lay (by omega), hnext])
    rw [hplaced.change_addTens_succ] at hrest
    exact carries_loop_again balanced_tensBody hcell
      (carries_tensBody hplaced hascending hsize) hrest

/-- The program text of a group fills the cells of its targets, if these and cell 0 are zero. -/
theorem carries_fillGroup {group : Nat} (hgroup : group < UInt32.size) (hzero : cell 0 = 0)
    (hempty : ∀ t ∈ targets, cell t.index = 0) :
    Carries .free (fillGroup group targets) (m.lay 0 cell)
      (.ok (), m.lay 0 (change filled targets cell)) := by
  have hcount : Carries .free (times group '+') (m.lay 0 cell)
      (.ok (), m.lay 0 (Function.update cell 0 (UInt32.ofNat group))) := by
    have hrun : Carries .free (times group '+') (m.lay 0 cell)
        (.ok (), m.lay 0 (Function.update cell 0 (cell 0 + UInt32.ofNat group))) :=
      carries_lay_increments (by omega) group
    rwa [hzero, UInt32.zero_add] at hrun
  have hloop : Carries .free (loopText (tensBody targets))
      (m.lay 0 (Function.update cell 0 (UInt32.ofNat group)))
      (.ok (), m.lay 0 (change (addTens group) targets cell)) := by
    have hreset : Function.update (Function.update cell 0 (UInt32.ofNat group)) 0 0 = cell := by
      rw [Function.update_idem, ← hzero, Function.update_eq_self]
    have hrun := carries_tensLoop (m := m) hplaced hascending hsize hgroup
      (Function.update_self 0 (UInt32.ofNat group) cell)
    rwa [hreset] at hrun
  have hvisit : Carries .free (visit (correction group) 0 targets)
      (m.lay 0 (change (addTens group) targets cell))
      (.ok (), m.lay 0 (change (corrected group) targets (change (addTens group) targets cell))) :=
    carries_visit (fun t ht => changes_correction (hplaced.lt_size t ht) group) hascending
      (fun t _ => Nat.zero_le t.index) hplaced.lt_size (by omega)
  rw [hplaced.change_corrected group hempty] at hvisit
  rw [fillGroup_eq]
  exact hcount.append (hloop.append hvisit)

end Group

/-! ### All groups are filled -/

lemma Placed.of_append {others : List Target} (h : Placed m (targets ++ others)) :
    Placed m targets ∧ Placed m others ∧ ∀ s ∈ targets, ∀ t ∈ others, s.index ≠ t.index := by
  obtain ⟨hnodup, hpos, hsize, hcode⟩ := h
  rw [List.map_append, List.nodup_append] at hnodup
  rw [List.forall_mem_append] at hpos hsize hcode
  refine ⟨⟨hnodup.1, hpos.1, hsize.1, hcode.1⟩, ⟨hnodup.2.1, hpos.2, hsize.2, hcode.2⟩, ?_⟩
  intro s hs t ht
  exact hnodup.2.2 _ (List.mem_map_of_mem hs) _ (List.mem_map_of_mem ht)

/-- The program text of a group, which counts the tens of its first target. -/
def fillText : List Target → List Char
  | [] => []
  | target :: group => fillGroup (tens target.code) (target :: group)

lemma looped_eq (text : List Char) :
    looped text = (groups (Encoder.targets text)).flatMap fillText ++ '>' :: printText := rfl

lemma balanced_flatMap_fillText (gs : List (List Target)) :
    Delimiters.loop.Balanced (gs.flatMap fillText) := by
  induction gs with
  | nil => exact .nil
  | cons group gs ih =>
    rw [List.flatMap_cons]
    refine Delimiters.Balanced.append ?_ ih
    cases group with
    | nil => exact .nil
    | cons target group => exact balanced_fillGroup (tens target.code) (target :: group)

/-- Group by group the cells of all targets are filled, if they and cell 0 are zero. -/
theorem carries_groups {gs : List (List Target)} (hne : ∀ group ∈ gs, group ≠ [])
    (hascending : ∀ group ∈ gs, group.Pairwise fun s t => s.index < t.index)
    (hplaced : Placed m gs.flatten) (hsize : 1 < m.tape.size) (hzero : cell 0 = 0)
    (hempty : ∀ t ∈ gs.flatten, cell t.index = 0) :
    Carries .free (gs.flatMap fillText) (m.lay 0 cell)
      (.ok (), m.lay 0 (change filled gs.flatten cell)) := by
  induction gs generalizing cell with
  | nil => exact carries_nil _
  | cons group gs ih =>
    obtain ⟨hgroup, hothers⟩ := List.forall_mem_cons.mp hne
    obtain ⟨hsorted, hascending'⟩ := List.forall_mem_cons.mp hascending
    rw [List.flatten_cons] at hplaced hempty ⊢
    rw [List.forall_mem_append] at hempty
    obtain ⟨hhere, hthere, hapart⟩ := hplaced.of_append
    obtain ⟨target, rest, rfl⟩ := List.exists_cons_of_ne_nil hgroup
    have htens : tens target.code < UInt32.size :=
      Nat.lt_of_le_of_lt (tens_le target.code) (hhere.code_lt target (by simp))
    have hrun := carries_fillGroup hhere hsorted hsize htens hzero hempty.1
    -- Filling a group leaves cell 0 at zero and does not touch the cells of the groups to come.
    have hzero' : change filled (target :: rest) cell 0 = 0 := by
      rw [change_of_ne hhere.ne_zero, hzero]
    have hempty' : ∀ t ∈ gs.flatten, change filled (target :: rest) cell t.index = 0 := by
      intro t ht
      rw [change_of_ne fun s hs => hapart s hs t ht, hempty.2 t ht]
    rw [change_append, List.flatMap_cons]
    exact hrun.append (ih hothers hascending' hthere hzero' hempty')

/-! ### The whole program -/

/-- A text with a line end, which is added unless the text ends with one. -/
def withLineEnd (text : List Char) : List Char :=
  if text.getLast? = some '\n' then text else text ++ ['\n']

lemma targets_eq (text : List Char) :
    Encoder.targets text = (withLineEnd text).mapIdx fun index c => ⟨index + 1, c.toNat⟩ := rfl

lemma mem_targets {text : List Char} {target : Target} :
    target ∈ Encoder.targets text ↔
      ∃ k, ∃ h : k < (withLineEnd text).length,
        (⟨k + 1, (withLineEnd text)[k].toNat⟩ : Target) = target := by
  rw [targets_eq, List.mem_mapIdx]

/-- The cells of a text are those from cell 1 on. -/
lemma map_index_targets (text : List Char) :
    (Encoder.targets text).map Target.index = List.range' 1 (withLineEnd text).length := by
  refine List.ext_getElem (by simp [targets_eq]) fun k hk hk' => ?_
  simp [targets_eq, Nat.add_comm]

lemma placed_targets {text : List Char} (h : (withLineEnd text).length + 2 ≤ m.tape.size) :
    Placed m (Encoder.targets text) := by
  refine ⟨?_, ?_, ?_, ?_⟩
  · rw [map_index_targets]
    exact List.nodup_range'
  · intro t ht
    obtain ⟨k, hk, rfl⟩ := mem_targets.mp ht
    exact Nat.succ_pos k
  · intro t ht
    obtain ⟨k, hk, rfl⟩ := mem_targets.mp ht
    dsimp only
    omega
  · intro t ht
    obtain ⟨k, hk, rfl⟩ := mem_targets.mp ht
    exact (withLineEnd text)[k].val.toNat_lt

/-- The cells when those of a text are filled, and all others are zero. -/
def row (text : List Char) : Nat → UInt32 :=
  change filled (Encoder.targets text) fun _ => 0

lemma row_zero (text : List Char) : row text 0 = 0 := by
  refine change_of_ne fun t ht => ?_
  obtain ⟨k, hk, rfl⟩ := mem_targets.mp ht
  exact Nat.succ_ne_zero k

lemma row_of_lt {text : List Char} {k : Nat} (h : k < (withLineEnd text).length) :
    row text (1 + k) = UInt32.ofNat (withLineEnd text)[k].toNat := by
  have hnodup : ((Encoder.targets text).map Target.index).Nodup := by
    rw [map_index_targets]
    exact List.nodup_range'
  rw [Nat.add_comm]
  exact change_of_mem hnodup (mem_targets.mpr ⟨k, h, rfl⟩)

lemma row_length (text : List Char) : row text (1 + (withLineEnd text).length) = 0 := by
  refine change_of_ne fun t ht => ?_
  obtain ⟨k, hk, rfl⟩ := mem_targets.mp ht
  dsimp only
  omega

/-- On a tape of zeros the program of a text fills its cells and prints them up to the first
zero. -/
theorem carries_looped {text : List Char} (hsink : m.sink.NeverFails)
    (hsize : (withLineEnd text).length + 2 ≤ m.tape.size) :
    Carries .free (looped text) (m.lay 0 fun _ => 0)
      (.ok (), (m.say (beforeNul (withLineEnd text))).lay
        (1 + (beforeNul (withLineEnd text)).length) (row text)) := by
  have hperm := flatten_groups_perm (Encoder.targets text)
  have hplaced := placed_targets hsize
  have hgroups : Placed m (groups (Encoder.targets text)).flatten :=
    ⟨(hperm.map Target.index).nodup_iff.mpr hplaced.nodup,
      fun t ht => hplaced.pos t (hperm.mem_iff.mp ht),
      fun t ht => hplaced.lt_size t (hperm.mem_iff.mp ht),
      fun t ht => hplaced.code_lt t (hperm.mem_iff.mp ht)⟩
  have hfill : Carries .free ((groups (Encoder.targets text)).flatMap fillText)
      (m.lay 0 fun _ => 0) (.ok (), m.lay 0 (row text)) := by
    rw [row, ← change_perm hplaced.nodup hperm]
    exact carries_groups (fun _ hgroup => ne_nil_of_mem_groups hgroup)
      (fun _ hgroup => ascending_of_mem_groups hplaced.nodup hgroup) hgroups (by omega) rfl
      (fun _ _ => rfl)
  have hright : Carries .free ['>'] (m.lay 0 (row text)) (.ok (), m.lay 1 (row text)) :=
    carries_lay_right (n := 1) (by omega)
  have hprint : Carries .free printText (m.lay 1 (row text))
      (.ok (), (m.say (beforeNul (withLineEnd text))).lay
        (1 + (beforeNul (withLineEnd text)).length) (row text)) :=
    carries_printRow hsink (by omega) (fun k hk => row_of_lt hk) (row_length text)
  rw [looped_eq]
  exact hfill.append (hright.append hprint)

lemma balanced_looped (text : List Char) : Delimiters.loop.Balanced (looped text) := by
  rw [looped_eq]
  exact (balanced_flatMap_fillText _).append
    (.symbol (by decide) (by decide) (.group balanced_printBody .nil))

/-- On a tape of zeros that is long enough, the program of the loop encoder ends well and prints
the text with a line end, up to the first character that is zero. It reads nothing, and cell 0 is
zero afterwards. -/
theorem exists_execute_looped (text : List Char) {tape : Tape} {input : Input} {sink : Sink}
    (hsize : (withLineEnd text).length + 2 ≤ tape.size)
    (hzero : ∀ index < tape.size, tape.get? index = some 0) (hcursor : tape.cursor = 0)
    (hsink : sink.NeverFails) :
    (∃ fuel halt, execute fuel (looped text) 0 tape input sink = some halt ∧
      halt.result = .ok (String.ofList (beforeNul (withLineEnd text))) ∧
      halt.machine.sink.written =
        sink.written ++ String.ofList (beforeNul (withLineEnd text)) ∧
      halt.machine.input = input ∧ halt.machine.tape.get? 0 = some 0) ∧
    ((∀ c ∈ text, c.toNat ≠ 0) → beforeNul (withLineEnd text) = withLineEnd text) := by
  constructor
  · let m : Machine := ⟨tape, input, sink, ""⟩
    have hlay : m.lay 0 (fun _ => 0) = m := by
      have htape : tape.lay 0 (fun _ => 0) = tape := Tape.lay_eq_self hcursor hzero
      simp only [m, lay, htape]
    have hrun : Carries .free (looped text) (m.lay 0 fun _ => 0)
        (.ok (), (m.say (beforeNul (withLineEnd text))).lay
          (1 + (beforeNul (withLineEnd text)).length) (row text)) := carries_looped hsink hsize
    rw [hlay] at hrun
    obtain ⟨fuel, hexecute⟩ := exists_execute_of_carries (balanced_looped text) hrun
    have hnever : ((m.say (beforeNul (withLineEnd text))).lay
        (1 + (beforeNul (withLineEnd text)).length) (row text)).sink.NeverFails := hsink
    rw [Ending.halt_of_neverFails hnever] at hexecute
    refine ⟨fuel, _, hexecute, ?_, rfl, rfl, ?_⟩
    · simp [m, say, lay, Except.map]
    · have hpos : 0 < (m.say (beforeNul (withLineEnd text))).tape.size := tape.size_pos
      exact (Tape.get?_lay 0).trans (by rw [if_pos hpos, row_zero])
  · intro hnul
    refine beforeNul_eq_self fun c hc => ?_
    unfold withLineEnd at hc
    split at hc
    · exact hnul c hc
    · rcases List.mem_append.mp hc with hc | hc
      · exact hnul c hc
      · obtain rfl := List.mem_singleton.mp hc
        decide

/-- What stands behind a zero is not printed. -/
theorem exists_execute_looped_nul :
    let text := ['A', Char.ofNat 0, 'B']
    (withLineEnd text).length + 2 ≤ (Tape.blank 6).size ∧
      (∀ index < (Tape.blank 6).size, (Tape.blank 6).get? index = some 0) ∧
      ∃ fuel halt, execute fuel (looped text) 0 (Tape.blank 6) (Input.ofBytes [7]) Sink.unlimited =
          some halt ∧
        halt.result = .ok "A" ∧ halt.machine.sink.written = "A" ∧
        halt.machine.input = Input.ofBytes [7] ∧ halt.machine.tape.get? 0 = some 0 := by
  intro text
  have hsize : (withLineEnd text).length + 2 ≤ (Tape.blank 6).size := by decide
  have hzero : ∀ index < (Tape.blank 6).size, (Tape.blank 6).get? index = some 0 := by decide
  exact ⟨hsize, hzero, (exists_execute_looped text hsize hzero rfl ⟨rfl, rfl⟩).1⟩

end TapeTower.Encoder
