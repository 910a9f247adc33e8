import TapeTower.Proofs.Machine.Outcome
import TapeTower.Proofs.Machine.Output
import TapeTower.Proofs.Machine.Spacing

/-!
# Running programs without their comments

A program and the program without its comments have the same effect, but they are minimized
differently. Deleting comments is noticed only where the end of the tape stops a move that
nothing but comments keeps apart from an opposite move: in the program without comments the two
are cancelled (`Configuration.StoppedApart`). Elsewhere the two programs end alike
(`endsAs_bare`); for a program that has no comment between moves nothing is asked at all.

The straight parts of the program are compared by going through the text from one move to the
next, with the spaced runs so far in hand (`Spaced`): a stretch without moves either is a gap in
them or ends them, and then stays where it is in both texts (`actAll_minimize_fold`).
-/

namespace TapeTower

open Opposites

/-! ### Moves that comments keep apart -/

/-- Around the place there is a move in another direction than `c`, the character ahead, and a
comment keeps them apart: between the two there is at least one, and without the comments there
nothing but moves would be left once the changes are cancelled. -/
def Place.KeptApart (place : Place Char) (c : Char) : Prop :=
  ∃ between d rest, isMove d = true ∧ d ≠ c ∧
    (∃ x ∈ between, Instruction.ofChar? x = none) ∧ OnlyMoves between ∧
      (place.ahead = c :: (between ++ d :: rest) ∨ place.behind = between.reverse ++ d :: rest)

/-- The end of the tape stops the move ahead, and comments keep this move apart from one in the
other direction. -/
def Configuration.StoppedApart (s : Configuration) : Prop :=
  ∃ c ∈ s.place.ahead.head?, s.machine.Clamps c ∧ s.place.KeptApart c

/-- What is kept apart in a part of a text is so in the text. -/
lemma Place.KeptApart.extend {behind ahead : List Char} {c : Char}
    (h : Place.KeptApart ⟨behind, c :: ahead⟩ c) (behind' ahead' : List Char) :
    Place.KeptApart ⟨behind ++ behind', c :: (ahead ++ ahead')⟩ c := by
  obtain ⟨between, d, rest, hd, hne, hcomment, honly, h | h⟩ := h
  · refine ⟨between, d, rest ++ ahead', hd, hne, hcomment, honly, Or.inl ?_⟩
    obtain rfl := List.tail_eq_of_cons_eq h
    simp
  · refine ⟨between, d, rest ++ behind', hd, hne, hcomment, honly, Or.inr ?_⟩
    have hbehind : behind = between.reverse ++ d :: rest := h
    simp [hbehind]

/-- In minimized spaced runs that are mixed, comments keep each move apart from another one. -/
lemma Spaced.keptApart {w u v : List Char} {c : Char} (h : Spaced w)
    (hw : move.cancel w = u ++ c :: v) (hc : isMove c = true)
    (hmixed : Mixed (move.cancel w)) : Place.KeptApart ⟨u.reverse, c :: v⟩ c := by
  have honly : OnlyMoves (u ++ c :: v) := hw ▸ h.cancel_move.onlyMoves
  obtain ⟨hu, hv⟩ := honly.of_append_cons hc
  -- The opposite move stands before or behind.
  obtain ⟨d, hd, hne, hmem⟩ : ∃ d, isMove d = true ∧ d ≠ c ∧ d ∈ u ++ c :: v := by
    rw [hw] at hmixed
    rcases isMove_iff.mp hc with rfl | rfl
    · exact ⟨'<', by decide, by decide, hmixed.2⟩
    · exact ⟨'>', by decide, by decide, hmixed.1⟩
  rcases List.mem_append.mp hmem with hmem | hmem
  · obtain ⟨rest, between, rfl⟩ := List.append_of_mem hmem
    refine ⟨between, d, rest.reverse, hd, hne, ?_, (hu.of_append_cons hd).2, Or.inr (by simp)⟩
    exact h.exists_comment hd hc hne.symm (by simpa using hw)
  · obtain ⟨between, rest, rfl⟩ := List.append_of_mem (List.mem_of_ne_of_mem hne hmem)
    refine ⟨between, d, rest, hd, hne, ?_, (hv.of_append_cons hd).1, Or.inl rfl⟩
    exact h.exists_comment hc hd hne hw

namespace Machine

/-- When a text is carried out, the ends of the tape stop no move that comments keep apart from
an opposite one. -/
def Unhindered (m : Machine) (text : List Char) : Prop :=
  ∀ u c v m', text = u ++ c :: v → actAll u m = (.ok (), m') → m'.Clamps c →
    ¬ Place.KeptApart ⟨u.reverse, c :: v⟩ c

lemma Unhindered.left {m : Machine} {s t : List Char} (h : m.Unhindered (s ++ t)) :
    m.Unhindered s := by
  rintro u c v m' rfl hact hclamps hapart
  refine h u c (v ++ t) m' (by simp) hact hclamps ?_
  simpa using hapart.extend [] t

lemma Unhindered.right {m m' : Machine} {s t : List Char} (h : m.Unhindered (s ++ t))
    (hact : m.actAll s = (.ok (), m')) : m'.Unhindered t := by
  rintro u c v m'' rfl hact' hclamps hapart
  refine h (s ++ u) c v m'' (by simp) ?_ hclamps ?_
  · rw [actAll_append, hact]
    exact hact'
  · simpa using hapart.extend s.reverse []

/-! ### Spaced runs -/

/-- The moves of mixed spaced runs are not stopped once the runs are minimized. -/
lemma Unhindered.unclamped {m : Machine} {w : List Char} (h : m.Unhindered (move.cancel w))
    (hw : Spaced w) (hmixed : Mixed ((move.cancel w).filter isMove)) :
    m.Unclamped ((move.cancel w).filter isMove) := by
  intro u c v m' htext hact hclamps
  -- A place in the moves alone is a place in the text with the gaps.
  obtain ⟨u', t, hcancel, rfl, ht⟩ := List.filter_eq_append_iff.mp htext
  obtain ⟨gap, v', rfl, hgap, hc, -⟩ := List.filter_eq_cons_iff.mp ht
  have hgap : gap.filter isMove = [] := List.filter_eq_nil_iff.mpr hgap
  have hcancel : move.cancel w = (u' ++ gap) ++ c :: v' := by rw [hcancel, List.append_assoc]
  have hbefore : OnlyMoves (u' ++ gap) := by
    have honly := hw.cancel_move.onlyMoves
    rw [hcancel] at honly
    exact (honly.of_append_cons hc).1
  refine h (u' ++ gap) c v' m' hcancel ?_ hclamps (hw.keptApart hcancel hc ?_)
  · rw [← hbefore.actAll_filter, List.filter_append, hgap, List.append_nil, hact]
  · exact ⟨(List.mem_filter.mp hmixed.1).1, (List.mem_filter.mp hmixed.2).1⟩

/-- Unhindered spaced runs may as well be minimized without their gaps. -/
lemma actAll_cancel_filter {m : Machine} {w : List Char} (hw : Spaced w)
    (h : m.Unhindered (move.cancel w)) :
    m.actAll (move.cancel (w.filter isMove)) = m.actAll (move.cancel w) := by
  rw [cancel_filter_isMove, actAll_cancel_move_of_unclamped
    (fun c hc => isMove_iff.mp (List.mem_filter.mp hc).2) (h.unclamped hw)]
  exact hw.cancel_move.onlyMoves.actAll_filter m

/-! ### Straight text -/

/-- Spaced runs and a text behind them that is not minimized have the same effect with their
comments and without. -/
lemma actAll_cancel_filter_append {m : Machine} {w : List Char} (hw : Spaced w)
    (h : m.Unhindered (move.cancel w)) (z : List Char) :
    m.actAll (move.cancel (w.filter isMove) ++ fold z) =
      m.actAll (move.cancel w ++ change.cancel z) := by
  rw [actAll_append, actAll_append, actAll_cancel_filter hw h]
  simp only [actAll_fold, actAll_cancel_change]

/-- Spaced runs and any text behind them are minimized with the same effect with their comments
and without. -/
theorem actAll_cancel_fold {m : Machine} {w : List Char} (hw : Spaced w) (s : List Char)
    (h : m.Unhindered (move.cancel (w ++ change.cancel s))) :
    m.actAll (move.cancel (w.filter isMove ++ fold s)) =
      m.actAll (move.cancel (w ++ change.cancel s)) := by
  have hstill : ∀ z, (∀ c ∈ z, isMove c = false) → ∀ c ∈ change.cancel z, isMove c = false :=
    fun z hz c hc => hz c (mem_of_mem_cancel change_ne hc)
  induction s using stretch_induction (fun c => isMove c = false) generalizing w m with
  | stretch z hz =>
    rw [cancel_append_right (ne_move_of_still (hstill z hz))] at h ⊢
    rw [cancel_append_right (ne_move_of_still (still_fold hz))]
    exact actAll_cancel_filter_append hw h.left z
  | other z d s hz hd ih =>
    have hd : isMove d = true := by simpa using hd
    have hchange := isMove_ne_change hd
    rw [cancel_append_cons hchange.1 hchange.2] at h ⊢
    rw [fold_append_cons hd]
    by_cases hgap : fold z = []
    · -- The stretch is a gap or nothing, and the move belongs to the runs so far.
      have hmore : Spaced (w ++ change.cancel z ++ [d]) := (hw.append_still hz hgap).push hd
      have hrest := ih hmore (by simpa using h)
      have hmoves : (w ++ change.cancel z ++ [d]).filter isMove = w.filter isMove ++ [d] := by
        rw [List.filter_append, List.filter_append, filter_isMove_of_still (hstill z hz),
          List.append_nil, List.filter_cons_of_pos hd, List.filter_nil]
      rw [hmoves] at hrest
      simpa [hgap] using hrest
    · -- The stretch stays, and behind it the move begins new runs.
      have hne : change.cancel z ≠ [] := by
        intro hnil
        rw [← fold_cancel_change, hnil] at hgap
        exact hgap rfl
      rw [← List.append_assoc] at h
      rw [← List.append_assoc, ← List.append_assoc]
      rw [cancel_append_append (ne_move_of_still (hstill z hz)) hne] at h ⊢
      rw [cancel_append_append (ne_move_of_still (still_fold hz)) hgap, actAll_append,
        actAll_append _ (move.cancel (d :: change.cancel s)),
        actAll_cancel_filter_append hw h.left.left]
      rcases hact : m.actAll (move.cancel w ++ change.cancel z) with ⟨_ | _, m'⟩
      · rfl
      · have hone : Spaced [d] := .moves (by simpa using hd)
        have hrest := ih hone (h.right hact)
        rwa [List.filter_cons_of_pos hd] at hrest

/-- A text is minimized with the same effect with its comments and without. -/
lemma actAll_minimize_bare {m : Machine} {text : List Char} (h : m.Unhindered (minimize text)) :
    m.actAll (minimize (bare text)) = m.actAll (minimize text) :=
  actAll_cancel_fold (w := []) (.moves (by simp)) text h

end Machine

/-! ### Programs -/

/-- A straight text without its comments. -/
def Straight.bare (s : Straight) : Straight :=
  ⟨TapeTower.bare s.1, fun c hc => s.2 c (List.mem_filter.mp hc).1⟩

/-- A program without its comments. -/
def Program.bare : Program → Program
  | straight s => straight s.bare
  | loop before body rest => loop before.bare body.bare rest.bare

lemma Program.bare_eq_map (p : Program) : p.bare = p.map Straight.bare := by
  induction p with
  | straight s => rfl
  | loop before body rest ihbody ihrest => rw [bare, ihbody, ihrest, map]

lemma Program.text_bare (p : Program) : p.bare.text = TapeTower.bare p.text := by
  rw [bare_eq_map]
  refine text_map (fun _ => rfl) (fun s t c hc => ?_) p
  rw [bare_append]
  rcases hc with rfl | rfl <;> rfl

/-- Where the run is not stopped, minimized straight text is carried out unhindered. -/
lemma unhindered_of_avoids {s : Straight} {behind ahead : List Char} {m : Machine}
    (h : Configuration.Avoids Configuration.StoppedApart ⟨⟨behind, s.1 ++ ahead⟩, m⟩) :
    m.Unhindered s.1 := by
  intro u c v m' htext hact hclamps hapart
  have hplain : ∀ x ∈ u, IsPlain x := fun x hx => s.2 x (by simp [htext, hx])
  have hreach := reaches_of_actAll hplain hact behind (c :: (v ++ ahead))
  have hplace : u ++ c :: (v ++ ahead) = s.1 ++ ahead := by simp [htext]
  rw [hplace] at hreach
  exact h _ hreach ⟨c, rfl, hclamps, hapart.extend behind ahead⟩

/-- Straight text that is minimized without its comments may be put in the place of straight
text that is minimized with them. -/
def Exchange.comments : Exchange where
  Takes s t := ∃ u : Straight, s = u.minimize ∧ t = u.bare.minimize
  Forbids := Configuration.StoppedApart
  takes_empty := ⟨.empty, rfl, rfl⟩
  not_forbids := by
    rintro behind ahead m hahead ⟨c, hc, hclamps, -⟩
    exact Machine.not_clamps_of_bounds hahead hc hclamps
  actAll_eq := by
    rintro _ _ behind ahead m ⟨u, rfl, rfl⟩ - - h
    exact Machine.actAll_minimize_bare (unhindered_of_avoids h)

/-- Deleting the comments of a program exchanges its straight parts when it is minimized. -/
lemma Program.relates_bare (p : Program) :
    Exchange.comments.Relates p.minimize p.bare.minimize := by
  induction p with
  | straight s => exact .straight ⟨s, rfl, rfl⟩
  | loop before body rest ihbody ihrest => exact .loop ⟨before, rfl, rfl⟩ ihbody ihrest

/-- Deleting comments deletes no loop bracket. -/
lemma skeleton_bare (text : List Char) :
    Delimiters.loop.skeleton (bare text) = Delimiters.loop.skeleton text := by
  rw [Delimiters.skeleton, Delimiters.skeleton, bare, List.filter_filter]
  refine List.filter_congr fun c _ => ?_
  by_cases hc : c = '[' ∨ c = ']'
  · rcases hc with rfl | rfl <;> decide
  · simp [Delimiters.loop, not_or.mp hc]

variable {code : List Char} {tape : Tape} {input : Input} {sink : Sink}

/-- A program and the program without its comments end alike, if the end of the tape stops no
move of the minimized program that nothing but comments keeps apart from an opposite one. -/
theorem endsAs_bare (h : ∀ s, Visits code tape input sink s → ¬ s.StoppedApart) (halt : Halt) :
    EndsAs (bare code) tape input sink halt ↔ EndsAs code tape input sink halt := by
  refine endsAs_iff_of_skeleton_eq (skeleton_bare code) fun _ hbalanced halt => ?_
  obtain ⟨p, rfl⟩ := Program.exists_text_eq hbalanced
  refine endsAs_iff_of_relates p.text_minimize ?_ p.relates_bare h
  rw [Program.text_minimize, Program.text_bare]

/-- Two moves with a blank between them are cancelled without the blank. On two cells, away from
the ends of the tape, this is not noticed. -/
theorem endsAs_bare_there_and_back :
    (∀ s, Visits "> <".toList (Tape.blank 2) [] Sink.unlimited s → ¬ s.StoppedApart) ∧
      ∀ halt, EndsAs (bare "> <".toList) (Tape.blank 2) [] Sink.unlimited halt ↔
        EndsAs "> <".toList (Tape.blank 2) [] Sink.unlimited halt := by
  have hclear : ∀ s, Visits "> <".toList (Tape.blank 2) [] Sink.unlimited s →
      ¬ s.StoppedApart := by
    have hrun : Configuration.Avoids Configuration.StoppedApart (Configuration.start
        (minimize "> <".toList) ⟨Tape.blank 2, [], Sink.unlimited, ""⟩) := by
      refine .of_step ?_ rfl (.of_step ?_ rfl (.of_step ?_ rfl (.of_haltsWith ?_ rfl))) <;>
        rintro ⟨c, hc, hclamps, -⟩ <;> cases hc <;> exact absurd hclamps (by decide)
    exact fun s hs => hrun s hs.2
  exact ⟨hclear, endsAs_bare hclear⟩

/-- On the first of two cells `<`, a blank and `>` end on the second cell, and without the blank
the two moves are cancelled. -/
theorem not_endsAs_bare :
    Sink.unlimited.NeverFails ∧
      ¬ ∀ halt, EndsAs (bare "< >".toList) (Tape.blank 2) [] Sink.unlimited halt ↔
        EndsAs "< >".toList (Tape.blank 2) [] Sink.unlimited halt := by
  refine ⟨⟨rfl, rfl⟩, fun h => ?_⟩
  obtain ⟨last, hends, hcursor⟩ : ∃ last,
      EndsAs "< >".toList (Tape.blank 2) [] Sink.unlimited last ∧
        last.machine.tape.cursor = 1 := ⟨_, ⟨4, rfl⟩, rfl⟩
  have hnothing := ((h last).mpr hends).machine_eq (by decide)
  rw [hnothing] at hcursor
  exact absurd hcursor (by decide)

end TapeTower
