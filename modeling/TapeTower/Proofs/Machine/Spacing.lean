import TapeTower.Proofs.Machine.Minimization

/-!
# Comments between moves

For the machine a comment is nothing, but for the minimizer it ends a run. Without the comments
of a text, changes of a cell come together and are cancelled, and when nothing is left of them,
moves come together that were kept apart. Cancelling these is noticed only where the end of the
tape stops one of them.

A text holds nothing but moves once its comments are deleted and its changes are cancelled
(`OnlyMoves`), if it is made of runs of moves with gaps between them in which there are comments
and changes that cancel (`Spaced`). Minimizing shortens each of the runs on its own, so that in
what is left a comment stands between any two opposite moves (`Spaced.exists_comment`).
-/

namespace TapeTower

open Opposites

/-! ### Deleting comments -/

/-- A text without its comments. -/
def bare (text : List Char) : List Char :=
  text.filter fun c => (Instruction.ofChar? c).isSome

lemma bare_append (s t : List Char) : bare (s ++ t) = bare s ++ bare t :=
  List.filter_append s t

lemma bare_cons_of_comment {c : Char} (hc : Instruction.ofChar? c = none) (t : List Char) :
    bare (c :: t) = bare t := by
  simp [bare, hc]

lemma bare_eq_self {text : List Char} (h : ∀ c ∈ text, Instruction.ofChar? c ≠ none) :
    bare text = text := by
  rw [bare, List.filter_eq_self]
  exact fun c hc => Option.isSome_iff_ne_none.mpr (h c hc)

lemma ofChar?_of_isMove {c : Char} (hc : isMove c = true) : Instruction.ofChar? c ≠ none := by
  rcases isMove_iff.mp hc with rfl | rfl <;> decide

lemma bare_cons_of_isMove {c : Char} (hc : isMove c = true) (t : List Char) :
    bare (c :: t) = c :: bare t := by
  simp [bare, Option.isSome_iff_ne_none, ofChar?_of_isMove hc]

lemma bare_of_moves {r : List Char} (hr : ∀ c ∈ r, isMove c = true) : bare r = r :=
  bare_eq_self fun c hc => ofChar?_of_isMove (hr c hc)

lemma bare_of_changes {r : List Char} (hr : ∀ c ∈ r, c = change.first ∨ c = change.second) :
    bare r = r := by
  refine bare_eq_self fun c hc => ?_
  rcases hr c hc with rfl | rfl <;> decide

/-- Deleting the comments of a text deletes none of its moves. -/
lemma filter_isMove_bare (text : List Char) : (bare text).filter isMove = text.filter isMove := by
  rw [bare, List.filter_filter]
  refine List.filter_congr fun c _ => ?_
  cases hc : isMove c with
  | false => rfl
  | true => simp [Option.isSome_iff_ne_none, ofChar?_of_isMove hc]

/-- Deleting the comments of a text leaves its effect as it is. -/
lemma Machine.actAll_bare (text : List Char) (m : Machine) :
    m.actAll (bare text) = m.actAll text := by
  induction text generalizing m with
  | nil => rfl
  | cons c text ih =>
    cases hc : Instruction.ofChar? c with
    | none =>
      have hact : m.act c = (.ok (), m) := by simp only [act, hc]
      rw [bare_cons_of_comment hc, ih, actAll, hact]
    | some instruction =>
      have hcons : bare (c :: text) = c :: bare text := by simp [bare, hc]
      rw [hcons, actAll, actAll]
      rcases m.act c with ⟨_ | _, m'⟩
      · rfl
      · exact ih m'

/-! ### Folding without comments -/

lemma isMove_ne_change {c : Char} (hc : isMove c = true) :
    c ≠ change.first ∧ c ≠ change.second := by
  rcases isMove_iff.mp hc with rfl | rfl <;> decide

/-- What remains of a text once its comments are deleted and its changes are cancelled. -/
def fold (text : List Char) : List Char := change.cancel (bare text)

lemma fold_eq_of_no_comment {text : List Char} (h : ∀ c ∈ text, Instruction.ofChar? c ≠ none) :
    fold text = change.cancel text := by
  rw [fold, bare_eq_self h]

/-- A move divides a text into parts that are folded on their own. -/
lemma fold_append_cons {c : Char} (hc : isMove c = true) (s t : List Char) :
    fold (s ++ c :: t) = fold s ++ c :: fold t := by
  have hchange := isMove_ne_change hc
  rw [fold, bare_append, bare_cons_of_isMove hc, cancel_append_cons hchange.1 hchange.2]
  rfl

/-- Folding keeps the moves of a text. -/
lemma filter_isMove_fold (text : List Char) : (fold text).filter isMove = text.filter isMove := by
  rw [fold, filter_cancel change_ne (by decide) (by decide), filter_isMove_bare]

/-- Folding leaves the effect of a text as it is. -/
lemma Machine.actAll_fold (text : List Char) (m : Machine) :
    m.actAll (fold text) = m.actAll text := by
  rw [fold, actAll_cancel_change, actAll_bare]

/-- Cancelling beforehand, around the comments, makes no difference to the fold. -/
lemma fold_cancel_change (text : List Char) : fold (change.cancel text) = fold text := by
  induction text using run_induction change with
  | run r hr =>
    have hcancel : bare (change.cancel r) = change.cancel r :=
      bare_of_changes fun c hc => hr c (mem_of_mem_cancel change_ne hc)
    rw [fold, fold, hcancel, bare_of_changes hr, cancel_cancel change_ne]
  | other r c t hr hfirst hsecond ih =>
    have hcancel : bare (change.cancel r) = change.cancel r :=
      bare_of_changes fun c hc => hr c (mem_of_mem_cancel change_ne hc)
    have hcons : ∀ t, bare (c :: t) = bare [c] ++ bare t := bare_append [c]
    calc fold (change.cancel (r ++ c :: t))
        = change.cancel (change.cancel r ++ (bare [c] ++ bare (change.cancel t))) := by
          rw [cancel_append_cons hfirst hsecond, fold, bare_append, hcancel, hcons]
      _ = change.cancel (r ++ bare [c] ++ bare (change.cancel t)) := by
          rw [cancel_cancel_append change_ne, List.append_assoc]
      _ = change.cancel (r ++ bare [c] ++ fold (change.cancel t)) := by
          rw [fold, cancel_append_cancel change_ne]
      _ = change.cancel (r ++ bare [c] ++ bare t) := by
          rw [ih, fold, cancel_append_cancel change_ne]
      _ = fold (r ++ c :: t) := by
          rw [fold, bare_append, hcons t, bare_of_changes hr, List.append_assoc]

/-! ### Texts that are folded to moves -/

/-- Nothing but moves is left of the text once it is folded. -/
def OnlyMoves (text : List Char) : Prop := ∀ c ∈ fold text, isMove c = true

/-- Such a text is folded to its moves. -/
lemma OnlyMoves.fold_eq {text : List Char} (h : OnlyMoves text) :
    fold text = text.filter isMove := by
  rw [← filter_isMove_fold]
  exact (List.filter_eq_self.mpr h).symm

/-- Such a text has the effect of its moves. -/
lemma OnlyMoves.actAll_filter {text : List Char} (h : OnlyMoves text) (m : Machine) :
    m.actAll (text.filter isMove) = m.actAll text := by
  rw [← h.fold_eq, Machine.actAll_fold]

/-- The parts of such a text between its moves are such texts. -/
lemma OnlyMoves.of_append_cons {s t : List Char} {c : Char} (h : OnlyMoves (s ++ c :: t))
    (hc : isMove c = true) : OnlyMoves s ∧ OnlyMoves t := by
  have hfold : ∀ x ∈ fold s ++ c :: fold t, isMove x = true := by
    rw [← fold_append_cons hc]
    exact h
  exact ⟨fun x hx => hfold x (List.mem_append_left _ hx),
    fun x hx => hfold x (List.mem_append_right _ (List.mem_cons_of_mem c hx))⟩

/-! ### Gaps and spaced runs -/

/-- A text without moves that comments keep from being empty: once they are deleted, its
changes cancel. -/
structure IsGap (text : List Char) : Prop where
  still : ∀ c ∈ text, isMove c = false
  comment : ∃ c ∈ text, Instruction.ofChar? c = none
  fold_eq : fold text = []

/-- Runs of moves with gaps between them. -/
inductive Spaced : List Char → Prop
  | moves {r} (hr : ∀ c ∈ r, isMove c = true) : Spaced r
  | apart {r gap t} (hr : ∀ c ∈ r, isMove c = true) (hgap : IsGap gap) (ht : Spaced t) :
      Spaced (r ++ gap ++ t)

lemma IsGap.ne_nil {gap : List Char} (h : IsGap gap) : gap ≠ [] := by
  obtain ⟨c, hc, -⟩ := h.comment
  exact List.ne_nil_of_mem hc

lemma ne_move_of_still {text : List Char} (h : ∀ c ∈ text, isMove c = false) :
    ∀ c ∈ text, c ≠ move.first ∧ c ≠ move.second := by
  intro c hc
  constructor
  · rintro rfl
    exact absurd (h _ hc) (by decide)
  · rintro rfl
    exact absurd (h _ hc) (by decide)

/-- Without moves in a text there are none in the folded text. -/
lemma still_fold {text : List Char} (h : ∀ c ∈ text, isMove c = false) :
    ∀ c ∈ fold text, isMove c = false :=
  fun c hc => h c (List.mem_filter.mp (mem_of_mem_cancel change_ne hc)).1

/-- A move that stands in a text with a gap stands before the gap or behind it. -/
lemma append_eq_append_cons_of_still {s gap t u v : List Char} {c : Char}
    (hgap : ∀ x ∈ gap, isMove x = false) (hc : isMove c = true)
    (h : s ++ gap ++ t = u ++ c :: v) :
    (∃ v', s = u ++ c :: v' ∧ v = v' ++ gap ++ t) ∨
      ∃ u', t = u' ++ c :: v ∧ u = s ++ gap ++ u' := by
  have hnot : c ∉ gap := fun hmem => by simp [hgap c hmem] at hc
  rcases List.append_eq_append_iff.mp h with ⟨u', hu, ht⟩ | ⟨w, hw, hv⟩
  · exact Or.inr ⟨u', ht, hu⟩
  · cases w with
    | nil => exact Or.inr ⟨[], by simpa using hv.symm, by simpa using hw.symm⟩
    | cons c' w =>
      obtain ⟨rfl, rfl⟩ := List.cons.inj hv
      rcases List.append_eq_append_iff.mp hw with ⟨u', -, hu'⟩ | ⟨w', hs, hw'⟩
      · exact absurd (hu' ▸ by simp) hnot
      · cases w' with
        | nil => exact absurd (show c ∈ gap from by simp [show gap = c :: w from hw'.symm]) hnot
        | cons c' v' =>
          obtain ⟨rfl, rfl⟩ := List.cons.inj hw'
          exact Or.inl ⟨v', hs, rfl⟩

/-- The moves of a text are cancelled to the same as those that are left when it is cancelled. -/
lemma cancel_filter_isMove (text : List Char) :
    move.cancel (text.filter isMove) = move.cancel ((move.cancel text).filter isMove) := by
  have hmoves : ∀ t : List Char, ∀ c ∈ t.filter isMove, c = move.first ∨ c = move.second :=
    fun t c hc => isMove_iff.mp (List.mem_filter.mp hc).2
  have hfirst : isMove move.first = true := by decide
  have hsecond : isMove move.second = true := by decide
  have hcount := count_cancel move_ne text
  rw [cancel_of_forall_mem move_ne (hmoves _), cancel_of_forall_mem move_ne (hmoves _)]
  refine surplus_eq_of_add_eq ?_
  simp only [List.count_filter hfirst, List.count_filter hsecond]
  omega

lemma filter_isMove_of_still {text : List Char} (h : ∀ c ∈ text, isMove c = false) :
    text.filter isMove = [] :=
  List.filter_eq_nil_iff.mpr fun c hc => by simp [h c hc]

namespace Spaced

variable {w t : List Char}

/-- Changes and comments in spaced runs go together with nothing that follows. -/
lemma cancel_bare_append (h : Spaced w) (t : List Char) :
    change.cancel (bare w ++ t) = w.filter isMove ++ change.cancel t := by
  induction h with
  | @moves r hr =>
    rw [bare_of_moves hr, List.filter_eq_self.mpr hr]
    exact cancel_append_left (fun c hc => isMove_ne_change (hr c hc)) t
  | @apart r gap w hr hgap _ ih =>
    have hnil : change.cancel (bare gap) = [] := hgap.fold_eq
    rw [List.filter_append, List.filter_append, List.filter_eq_self.mpr hr,
      filter_isMove_of_still hgap.still, List.append_nil, bare_append, bare_append,
      bare_of_moves hr, List.append_assoc, List.append_assoc,
      cancel_append_left (fun c hc => isMove_ne_change (hr c hc)),
      ← cancel_cancel_append change_ne (bare gap), hnil, List.nil_append, ih, List.append_assoc]

/-- Spaced runs are folded to moves. -/
lemma onlyMoves (h : Spaced w) : OnlyMoves w := by
  have hfold : fold w = w.filter isMove ++ change.cancel [] := by
    rw [fold, ← h.cancel_bare_append, List.append_nil]
  have hnil : change.cancel [] = [] := rfl
  intro c hc
  rw [hfold, hnil, List.append_nil] at hc
  exact (List.mem_filter.mp hc).2

/-- Spaced runs with more of them behind. -/
lemma append_gap {gap : List Char} (h : Spaced w) (hgap : IsGap gap) (ht : Spaced t) :
    Spaced (w ++ gap ++ t) := by
  induction h with
  | moves hr => exact .apart hr hgap ht
  | @apart r gap' w hr hgap' _ ih =>
    have hmore := Spaced.apart hr hgap' ih
    simpa only [List.append_assoc] using hmore

/-- A stretch without moves of which the fold leaves nothing is a gap, unless cancelling leaves
nothing of it either: then spaced runs end in nothing more than before. -/
lemma append_still {z : List Char} (h : Spaced w) (hz : ∀ c ∈ z, isMove c = false)
    (hfold : fold z = []) : Spaced (w ++ change.cancel z) := by
  by_cases hcomment : ∀ c ∈ z, Instruction.ofChar? c ≠ none
  · rw [← fold_eq_of_no_comment hcomment, hfold, List.append_nil]
    exact h
  · push Not at hcomment
    obtain ⟨c, hc, hnone⟩ := hcomment
    have hgap : IsGap (change.cancel z) := by
      refine ⟨fun x hx => hz x (mem_of_mem_cancel change_ne hx), ⟨c, ?_, hnone⟩, ?_⟩
      · have hkeep := filter_cancel change_ne (p := fun x => (Instruction.ofChar? x).isNone)
          (by decide) (by decide) z
        have hmem : c ∈ z.filter fun x => (Instruction.ofChar? x).isNone := by simp [hc, hnone]
        rw [← hkeep] at hmem
        exact (List.mem_filter.mp hmem).1
      · rw [fold_cancel_change, hfold]
    have hmore := h.append_gap hgap (.moves (r := []) (by simp))
    rwa [List.append_nil] at hmore

/-- Spaced runs with one more move behind. -/
lemma push {d : Char} (h : Spaced w) (hd : isMove d = true) : Spaced (w ++ [d]) := by
  induction h with
  | moves hr =>
    refine .moves fun c hc => ?_
    rcases List.mem_append.mp hc with hc | hc
    · exact hr c hc
    · rwa [List.mem_singleton.mp hc]
  | apart hr hgap _ ih =>
    rw [List.append_assoc]
    exact .apart hr hgap ih

/-- Minimizing shortens each run on its own. -/
lemma cancel_move_append {r gap : List Char} (hgap : IsGap gap) (t : List Char) :
    move.cancel (r ++ gap ++ t) = move.cancel r ++ gap ++ move.cancel t :=
  cancel_append_append (ne_move_of_still hgap.still) hgap.ne_nil r t

lemma moves_cancel {r : List Char} (hr : ∀ c ∈ r, isMove c = true) :
    ∀ c ∈ move.cancel r, isMove c = true :=
  fun c hc => hr c (mem_of_mem_cancel move_ne hc)

/-- All moves that are left of a run are the same. -/
lemma eq_of_mem_cancel_move {r : List Char} (hr : ∀ c ∈ r, isMove c = true) {c d : Char}
    (hc : c ∈ move.cancel r) (hd : d ∈ move.cancel r) : c = d := by
  rw [cancel_of_forall_mem move_ne fun x hx => isMove_iff.mp (hr x hx)] at hc hd
  exact eq_of_mem_surplus hc hd

/-- Spaced runs stay spaced. -/
lemma cancel_move (h : Spaced w) : Spaced (move.cancel w) := by
  induction h with
  | moves hr => exact .moves (moves_cancel hr)
  | apart hr hgap _ ih =>
    rw [cancel_move_append hgap]
    exact .apart (moves_cancel hr) hgap ih

/-- In minimized spaced runs there is a comment between any two opposite moves. -/
theorem exists_comment (h : Spaced w) {u between v : List Char} {c d : Char}
    (hc : isMove c = true) (hd : isMove d = true) (hne : d ≠ c)
    (hw : move.cancel w = u ++ c :: (between ++ d :: v)) :
    ∃ x ∈ between, Instruction.ofChar? x = none := by
  induction h generalizing u with
  | moves hr =>
    have hsame : c = d := eq_of_mem_cancel_move hr (by simp [hw]) (by simp [hw])
    exact absurd hsame.symm hne
  | apart hr hgap _ ih =>
    rw [cancel_move_append hgap] at hw
    rcases append_eq_append_cons_of_still hgap.still hc hw with ⟨v', hu, hv⟩ | ⟨u', hu, -⟩
    · rcases append_eq_append_cons_of_still hgap.still hd hv.symm with ⟨v'', rfl, -⟩ | ⟨u', -, rfl⟩
      · have hsame : c = d := eq_of_mem_cancel_move hr (by simp [hu]) (by simp [hu])
        exact absurd hsame.symm hne
      · obtain ⟨x, hx, hcomment⟩ := hgap.comment
        exact ⟨x, by simp [hx], hcomment⟩
    · exact ih hu

end Spaced

end TapeTower
