import Mathlib.Data.List.TakeWhile
import TapeTower.Proofs.Cancellation
import TapeTower.Proofs.Machine.Exchange
import TapeTower.Proofs.Tape

/-!
# Running minimized programs

Minimizing a program cancels the changes of a cell and then the moves of the cursor,
in each straight part between loop brackets. The first cancellation is exact, since
the two changes undo each other (`Machine.actAll_cancel_change`). The second one is exact
on a run of moves that goes one way only, which it leaves as it is, and on a mixed run
that the ends of the tape do not stop (`Machine.actAll_cancel_move`).

A run of a program is clear when nowhere on it the end of the tape stops a move that stands in a
mixed run, as seen once the changes are cancelled (`Configuration.Clear`). On such a run
minimizing leaves the effect of each straight part as it is (`actAll_minimize_of_clear`), so
that a program and the minimized program have the same structured runs
(`Program.run_minimize_iff`).
-/

namespace TapeTower

open Opposites

namespace Machine

/-! ### Changes of a cell -/

section Inverse

variable {pair : Opposites} {f g : Machine → Machine}

/-- Acting once more on the surplus of a run is acting first. -/
lemma actAll_surplus_succ_left (hfirst : ∀ m, m.act pair.first = (.ok (), f m))
    (hsecond : ∀ m, m.act pair.second = (.ok (), g m)) (hgf : ∀ m, g (f m) = m) (a b : Nat)
    (rest : List Char) (m : Machine) :
    actAll (pair.surplus (a + 1) b ++ rest) m = actAll (pair.surplus a b ++ rest) (f m) := by
  rcases Nat.lt_or_ge a b with h | h
  · obtain ⟨b, rfl⟩ : ∃ b', b = b' + 1 := ⟨b - 1, by omega⟩
    rw [surplus_succ_succ, surplus_succ_right (by omega), List.cons_append, actAll, hsecond, hgf]
  · rw [surplus_succ_left h, List.cons_append, actAll, hfirst]

/-- The same with the two opposites in exchanged roles. -/
lemma actAll_surplus_succ_right (hfirst : ∀ m, m.act pair.first = (.ok (), f m))
    (hsecond : ∀ m, m.act pair.second = (.ok (), g m)) (hfg : ∀ m, f (g m) = m) (a b : Nat)
    (rest : List Char) (m : Machine) :
    actAll (pair.surplus a (b + 1) ++ rest) m = actAll (pair.surplus a b ++ rest) (g m) := by
  rcases Nat.lt_or_ge b a with h | h
  · obtain ⟨a, rfl⟩ : ∃ a', a = a' + 1 := ⟨a - 1, by omega⟩
    rw [surplus_succ_succ, surplus_succ_left (by omega), List.cons_append, actAll, hfirst, hfg]
  · rw [surplus_succ_right h, List.cons_append, actAll, hsecond]

/-- Cancelling two characters whose effects undo each other leaves the effect of every
text as it is. -/
theorem actAll_cancel (hpair : pair.first ≠ pair.second)
    (hfirst : ∀ m, m.act pair.first = (.ok (), f m))
    (hsecond : ∀ m, m.act pair.second = (.ok (), g m)) (hgf : ∀ m, g (f m) = m)
    (hfg : ∀ m, f (g m) = m) (text : List Char) (m : Machine) :
    actAll (pair.cancel text) m = actAll text m := by
  induction text generalizing m with
  | nil => simp [cancel, Run.toText]
  | cons c text ih =>
    rw [actAll]
    by_cases hc : c = pair.first
    · subst hc
      rw [cancel_cons_first, actAll_surplus_succ_left hfirst hsecond hgf, ← cancel_eq, ih, hfirst]
    · by_cases hc' : c = pair.second
      · subst hc'
        rw [cancel_cons_second hpair, actAll_surplus_succ_right hfirst hsecond hfg, ← cancel_eq, ih,
          hsecond]
      · rw [cancel_cons hc hc', actAll]
        rcases m.act c with ⟨_ | _, m'⟩
        · rfl
        · exact ih m'

end Inverse

/-- Cancelling the changes of a cell leaves the effect of every text as it is. -/
theorem actAll_cancel_change (text : List Char) (m : Machine) :
    actAll (change.cancel text) m = actAll text m := by
  refine actAll_cancel (f := fun m => { m with tape := m.tape.increment })
    (g := fun m => { m with tape := m.tape.decrement }) (by decide) (fun _ => rfl)
    (fun _ => rfl) ?_ ?_ text m
  · intro m
    simp [Tape.decrement_increment]
  · intro m
    simp [Tape.increment_decrement]

/-! ### Moves of the cursor -/

/-- The machine with its cursor on another cell. -/
def goTo (m : Machine) (index : Nat) : Machine := { m with tape := m.tape.moveTo index }

@[simp] lemma goTo_goTo (m : Machine) (index index' : Nat) :
    (m.goTo index).goTo index' = m.goTo index' := rfl

@[simp] lemma goTo_cursor (m : Machine) : m.goTo m.tape.cursor = m := by
  simp [goTo]

lemma act_right (m : Machine) : m.act '>' = (.ok (), m.goTo (m.tape.cursor + 1)) := by
  rw [goTo, ← Tape.moveRight_eq]
  rfl

lemma act_left (m : Machine) : m.act '<' = (.ok (), m.goTo (m.tape.cursor - 1)) := by
  rw [goTo, ← Tape.moveLeft_eq]
  rfl

/-- Moves to the right add up. -/
lemma actAll_replicate_right (n : Nat) (m : Machine) :
    actAll (List.replicate n '>') m = (.ok (), m.goTo (m.tape.cursor + n)) := by
  induction n generalizing m with
  | zero => simp [actAll]
  | succ n ih =>
    rw [List.replicate_succ, actAll, act_right]
    dsimp only
    rw [ih]
    have hcursor : min (min (m.tape.cursor + 1) (m.tape.size - 1) + n) (m.tape.size - 1) =
        min (m.tape.cursor + (n + 1)) (m.tape.size - 1) := by omega
    simpa [goTo, Tape.moveTo, Tape.size] using hcursor

/-- Moves to the left add up. -/
lemma actAll_replicate_left (n : Nat) (m : Machine) :
    actAll (List.replicate n '<') m = (.ok (), m.goTo (m.tape.cursor - n)) := by
  induction n generalizing m with
  | zero => simp [actAll]
  | succ n ih =>
    rw [List.replicate_succ, actAll, act_left]
    dsimp only
    have := m.tape.cursor_lt
    have hcursor : (m.goTo (m.tape.cursor - 1)).tape.cursor - n = m.tape.cursor - (n + 1) := by
      rw [goTo, Tape.cursor_moveTo_of_lt _ (by unfold Tape.size; omega)]
      omega
    rw [ih, hcursor, goTo_goTo]

/-- The character is a move that the end of the tape stops. -/
def Clamps (m : Machine) (c : Char) : Prop :=
  c = '<' ∧ m.tape.cursor = 0 ∨ c = '>' ∧ m.tape.cursor + 1 = m.tape.size

instance (m : Machine) (c : Char) : Decidable (m.Clamps c) :=
  inferInstanceAs (Decidable (c = '<' ∧ m.tape.cursor = 0 ∨
    c = '>' ∧ m.tape.cursor + 1 = m.tape.size))

/-- No move is ahead of a loop bracket or of the end of the program. -/
lemma not_clamps_of_bounds {m : Machine} {ahead : List Char} (hahead : Bounds ahead) {c : Char}
    (hc : c ∈ ahead.head?) : ¬ m.Clamps c := by
  rcases hahead c hc with rfl | rfl <;> simp [Clamps]

/-- No character of a text is a move that the end of the tape stops when the text is
carried out. -/
def Unclamped (m : Machine) (text : List Char) : Prop :=
  ∀ s c t m', text = s ++ c :: t → actAll s m = (.ok (), m') → ¬ m'.Clamps c

/-- What comes after a character that is carried out is not stopped either. -/
lemma Unclamped.tail {m m' : Machine} {c : Char} {text : List Char}
    (h : m.Unclamped (c :: text)) (hact : m.act c = (.ok (), m')) : m'.Unclamped text := by
  intro s c' t m'' htext hs
  refine h (c :: s) c' t m'' (by rw [htext, List.cons_append]) ?_
  rw [actAll, hact]
  exact hs

/-- A run of moves that the ends of the tape do not stop moves the cursor by the
difference of its two counts. -/
lemma exists_actAll_moves {r : List Char} (hr : ∀ c ∈ r, c = '>' ∨ c = '<') {m : Machine}
    (h : m.Unclamped r) :
    ∃ index < m.tape.size, index + r.count '<' = m.tape.cursor + r.count '>' ∧
      actAll r m = (.ok (), m.goTo index) := by
  induction r generalizing m with
  | nil => exact ⟨m.tape.cursor, m.tape.cursor_lt, by simp, by simp [actAll]⟩
  | cons c r ih =>
    have hhead := h [] c r m rfl rfl
    have hlt : m.tape.cursor < m.tape.size := m.tape.cursor_lt
    rcases hr c (by simp) with rfl | rfl
    · have hcursor : m.tape.cursor + 1 < m.tape.size := by
        by_contra hge
        exact hhead (Or.inr ⟨rfl, by omega⟩)
      obtain ⟨index, hindex, hcount, hrest⟩ :=
        ih (fun x hx => hr x (by simp [hx])) (h.tail m.act_right)
      rw [goTo, Tape.cursor_moveTo_of_lt _ hcursor] at hcount
      refine ⟨index, hindex, ?_, ?_⟩
      · rw [List.count_cons_self, List.count_cons_of_ne (by decide)]
        omega
      · rw [actAll, act_right]
        exact hrest
    · have hcursor : m.tape.cursor ≠ 0 := fun hzero => hhead (Or.inl ⟨rfl, hzero⟩)
      obtain ⟨index, hindex, hcount, hrest⟩ :=
        ih (fun x hx => hr x (by simp [hx])) (h.tail m.act_left)
      rw [goTo, Tape.cursor_moveTo_of_lt _ (by omega)] at hcount
      refine ⟨index, hindex, ?_, ?_⟩
      · rw [List.count_cons_self, List.count_cons_of_ne (by decide)]
        omega
      · rw [actAll, act_left]
        exact hrest

/-- Cancelling in a run of moves that the ends of the tape do not stop leaves its effect
as it is. -/
lemma actAll_surplus_of_unclamped {r : List Char} (hr : ∀ c ∈ r, c = '>' ∨ c = '<') {m : Machine}
    (h : m.Unclamped r) :
    actAll (move.surplus (r.count '>') (r.count '<')) m = actAll r m := by
  obtain ⟨index, hindex, hcount, hact⟩ := exists_actAll_moves hr h
  rw [hact]
  unfold surplus
  split
  · have hto : m.tape.cursor + (r.count '>' - r.count '<') = index := by omega
    rw [move, actAll_replicate_right, hto]
  · have hto : m.tape.cursor - (r.count '<' - r.count '>') = index := by omega
    rw [move, actAll_replicate_left, hto]

end Machine

/-! ### Runs of moves -/

/-- The character moves the cursor. -/
def isMove (c : Char) : Bool := c == '>' || c == '<'

lemma isMove_iff {c : Char} : isMove c = true ↔ c = '>' ∨ c = '<' := by
  simp [isMove]

/-- A text holds moves of both directions. -/
def Mixed (text : List Char) : Prop := '>' ∈ text ∧ '<' ∈ text

/-- The maximal run of moves around a place. -/
def Place.moves (place : Place Char) : List Char :=
  (place.behind.takeWhile isMove).reverse ++ place.ahead.takeWhile isMove

/-- What belongs to a run of moves belongs to the run around each place in it. -/
lemma mem_moves_of_mem {u v t : List Char} (h : ∀ c ∈ u ++ v, c = '>' ∨ c = '<') {c : Char}
    (hc : c ∈ u ++ v) : c ∈ (Place.mk u.reverse (v ++ t)).moves := by
  have hu : u.reverse.takeWhile isMove = u.reverse := by
    rw [List.takeWhile_eq_self_iff]
    intro x hx
    exact isMove_iff.mpr (h x (List.mem_append_left _ (List.mem_reverse.mp hx)))
  have hv : ∀ x ∈ v, isMove x = true := fun x hx =>
    isMove_iff.mpr (h x (List.mem_append_right _ hx))
  rw [Place.moves, hu, List.reverse_reverse, List.takeWhile_append_of_pos hv, ← List.append_assoc]
  exact List.mem_append_left _ hc

/-- What stands behind a character that is no move does not belong to the run. -/
lemma takeWhile_isMove_append_cons {c : Char} (hc : isMove c = false) (s t : List Char) :
    (s ++ c :: t).takeWhile isMove = s.takeWhile isMove := by
  induction s with
  | nil => simp [hc]
  | cons x s ih =>
    rw [List.cons_append, List.takeWhile_cons, List.takeWhile_cons, ih]

namespace Machine

/-- When a text is carried out, the ends of the tape stop no move in a mixed run. -/
def MovesFreely (m : Machine) (text : List Char) : Prop :=
  ∀ u c v m', text = u ++ c :: v → actAll u m = (.ok (), m') → m'.Clamps c →
    ¬ Mixed (Place.mk u.reverse (c :: v)).moves

/-- The leading run of a text is not stopped if it is mixed. -/
lemma MovesFreely.unclamped {m : Machine} {r t : List Char} (h : m.MovesFreely (r ++ t))
    (hr : ∀ c ∈ r, c = '>' ∨ c = '<') (hmixed : Mixed r) : m.Unclamped r := by
  rintro u c v m' rfl hact hclamps
  refine h u c (v ++ t) m' (by simp) hact hclamps ⟨?_, ?_⟩
  · exact mem_moves_of_mem hr hmixed.1
  · exact mem_moves_of_mem hr hmixed.2

/-- What comes after a character that is no move is free as well. -/
lemma MovesFreely.of_append_cons {m m' : Machine} {c : Char} {s t : List Char}
    (h : m.MovesFreely (s ++ c :: t)) (hc : isMove c = false)
    (hact : actAll (s ++ [c]) m = (.ok (), m')) : m'.MovesFreely t := by
  intro u d v m'' ht hu hclamps
  have hmoves := h (s ++ c :: u) d v m'' (by simp [ht]) ?_ hclamps
  · have hbehind : (s ++ c :: u).reverse = u.reverse ++ c :: s.reverse := by simp
    rwa [Place.moves, hbehind, takeWhile_isMove_append_cons hc] at hmoves
  · rw [← List.singleton_append, ← List.append_assoc, actAll_append, hact]
    exact hu

/-- A run of moves that is not mixed is left as it is. -/
lemma cancel_move_of_not_mixed {r : List Char} (hr : ∀ c ∈ r, c = '>' ∨ c = '<')
    (h : ¬ Mixed r) : move.cancel r = r := by
  by_cases hright : '>' ∈ r
  · have hleft : '<' ∉ r := fun hleft => h ⟨hright, hleft⟩
    have hall : ∀ c ∈ r, c = '>' := fun c hc =>
      (hr c hc).resolve_right fun hc' => hleft (hc' ▸ hc)
    rw [List.eq_replicate_of_mem hall]
    exact cancel_replicate_first move_ne r.length
  · have hall : ∀ c ∈ r, c = '<' := fun c hc =>
      (hr c hc).resolve_left fun hc' => hright (hc' ▸ hc)
    rw [List.eq_replicate_of_mem hall]
    exact cancel_replicate_second move_ne r.length

/-- Cancelling in a run of moves that is not stopped if it is mixed leaves its effect as it is. -/
lemma actAll_cancel_move_of_unclamped {m : Machine} {r : List Char}
    (hr : ∀ c ∈ r, c = '>' ∨ c = '<') (h : Mixed r → m.Unclamped r) :
    actAll (move.cancel r) m = actAll r m := by
  by_cases hmixed : Mixed r
  · rw [cancel_of_forall_mem move_ne hr]
    exact actAll_surplus_of_unclamped hr (h hmixed)
  · rw [cancel_move_of_not_mixed hr hmixed]

/-- Cancelling the leading run of a text leaves its effect as it is. -/
lemma actAll_cancel_move_run {m : Machine} {r t : List Char} (h : m.MovesFreely (r ++ t))
    (hr : ∀ c ∈ r, c = '>' ∨ c = '<') : actAll (move.cancel r) m = actAll r m :=
  actAll_cancel_move_of_unclamped hr (h.unclamped hr)

/-- Cancelling moves that are free leaves the effect of a text as it is. -/
theorem actAll_cancel_move {m : Machine} {text : List Char} (h : m.MovesFreely text) :
    actAll (move.cancel text) m = actAll text m := by
  induction text using run_induction move generalizing m with
  | run r hr =>
    rw [← List.append_nil r] at h
    exact actAll_cancel_move_run h hr
  | other r c t hr hright hleft ih =>
    have hrun : actAll (move.cancel r ++ [c]) m = actAll (r ++ [c]) m := by
      rw [actAll_append, actAll_cancel_move_run h hr, ← actAll_append]
    rw [cancel_append_cons hright hleft, List.append_cons (move.cancel r), List.append_cons r,
      actAll_append (move.cancel r ++ [c]), actAll_append (r ++ [c]), hrun]
    rcases hact : actAll (r ++ [c]) m with ⟨_ | _, m'⟩
    · rfl
    · have hc : isMove c = false := by
        simp only [move] at hright hleft
        simp [isMove, hright, hleft]
      exact ih (h.of_append_cons hc hact)

end Machine

/-! ### Clear runs -/

/-- The place where the changes of a cell have been cancelled on both sides. -/
def Place.folded (place : Place Char) : Place Char :=
  ⟨(change.cancel place.behind.reverse).reverse, change.cancel place.ahead⟩

namespace Configuration

/-- The end of the tape stops the move ahead, in a mixed run of moves. -/
def Stopped (s : Configuration) : Prop :=
  ∃ c ∈ s.place.ahead.head?, s.machine.Clamps c ∧ Mixed s.place.folded.moves

/-- Nowhere on the run from here is a move stopped in a mixed run. -/
def Clear (s : Configuration) : Prop := ∀ t, s.Reaches t → ¬ t.Stopped

end Configuration

/-- A loop bracket is neither a change of a cell nor a move. -/
lemma Bounds.head {b : Char} {text : List Char} (h : Bounds (b :: text)) :
    b ≠ change.first ∧ b ≠ change.second ∧ isMove b = false := by
  rcases h b rfl with rfl | rfl <;> decide

/-- Moves ahead of a loop bracket are those ahead of the end of a text. -/
lemma takeWhile_cancel_append {t : List Char} (ht : Bounds t) (s : List Char) :
    (change.cancel (s ++ t)).takeWhile isMove = (change.cancel s).takeWhile isMove := by
  cases t with
  | nil => rw [List.append_nil]
  | cons b t =>
    obtain ⟨hfirst, hsecond, hmove⟩ := ht.head
    rw [cancel_append_cons hfirst hsecond, takeWhile_isMove_append_cons hmove]

/-- Moves behind a loop bracket are those behind the beginning of a text. -/
lemma takeWhile_cancel_reverse_append {t : List Char} (ht : Bounds t) (s : List Char) :
    (change.cancel (t.reverse ++ s)).reverse.takeWhile isMove =
      (change.cancel s).reverse.takeWhile isMove := by
  cases t with
  | nil => rfl
  | cons b t =>
    obtain ⟨hfirst, hsecond, hmove⟩ := ht.head
    rw [List.reverse_cons, List.append_assoc, List.singleton_append,
      cancel_append_cons hfirst hsecond, List.reverse_append, List.reverse_cons,
      List.append_assoc, List.singleton_append, takeWhile_isMove_append_cons hmove]

/-- A run of moves does not reach beyond loop brackets. -/
lemma moves_folded {behind ahead : List Char} (hbehind : Bounds behind) (hahead : Bounds ahead)
    (s t : List Char) :
    (Place.mk (s.reverse ++ behind) (t ++ ahead)).folded.moves =
      (Place.mk (change.cancel s).reverse (change.cancel t)).moves := by
  simp only [Place.folded, Place.moves, List.reverse_append, List.reverse_reverse,
    takeWhile_cancel_append hahead, takeWhile_cancel_reverse_append hbehind]

/-! ### Straight text -/

/-- A straight text, minimized. -/
def Straight.minimize (s : Straight) : Straight :=
  ⟨TapeTower.minimize s.1, fun c hc => s.2 c (mem_of_mem_minimize hc)⟩

/-- On a clear run the folded moves of straight text are free. -/
lemma movesFreely_of_clear {s : Straight} {behind ahead : List Char} {m : Machine}
    (hbehind : Bounds behind) (hahead : Bounds ahead)
    (h : Configuration.Clear ⟨⟨behind, s.1 ++ ahead⟩, m⟩) :
    m.MovesFreely (change.cancel s.1) := by
  intro u c v m' htext hact hclamps hmixed
  have hc : c ≠ change.first ∧ c ≠ change.second := by
    rcases hclamps with ⟨rfl, -⟩ | ⟨rfl, -⟩ <;> decide
  obtain ⟨s₁, s₂, hs, rfl, rfl⟩ :=
    exists_of_cancel_eq_append_cons change_ne hc.1 hc.2 htext
  rw [Machine.actAll_cancel_change] at hact
  have hplain : ∀ x ∈ s₁, IsPlain x := fun x hx => s.2 x (by simp [hs, hx])
  have hreach := reaches_of_actAll hplain hact behind (c :: s₂ ++ ahead)
  rw [← List.append_assoc, ← hs] at hreach
  refine h _ hreach ⟨c, rfl, hclamps, ?_⟩
  rwa [moves_folded hbehind hahead, cancel_cons hc.1 hc.2]

/-- On a clear run minimizing straight text leaves its effect as it is. -/
lemma actAll_minimize_of_clear {s : Straight} {behind ahead : List Char} {m : Machine}
    (hbehind : Bounds behind) (hahead : Bounds ahead)
    (h : Configuration.Clear ⟨⟨behind, s.1 ++ ahead⟩, m⟩) :
    m.actAll s.minimize.1 = m.actAll s.1 := by
  have hmoves := Machine.actAll_cancel_move (movesFreely_of_clear hbehind hahead h)
  rwa [Machine.actAll_cancel_change] at hmoves

/-- Minimized straight text may be put in the place of the text, on clear runs. -/
def Exchange.minimizing : Exchange where
  Takes s t := t = s.minimize
  Forbids := Configuration.Stopped
  takes_empty := rfl
  not_forbids := by
    rintro behind ahead m hahead ⟨c, hc, hclamps, -⟩
    exact Machine.not_clamps_of_bounds hahead hc hclamps
  actAll_eq := by
    rintro s _ behind ahead m rfl hbehind hahead hclear
    exact actAll_minimize_of_clear hbehind hahead hclear

/-! ### Programs -/

namespace Program

/-- A program whose straight parts are minimized. -/
def minimize : Program → Program
  | straight s => straight s.minimize
  | loop before body rest => loop before.minimize body.minimize rest.minimize

lemma minimize_eq_map (p : Program) : p.minimize = p.map Straight.minimize := by
  induction p with
  | straight s => rfl
  | loop before body rest ihbody ihrest => rw [minimize, ihbody, ihrest, map]

/-- Minimizing a program is minimizing its text. -/
lemma text_minimize (p : Program) : p.minimize.text = TapeTower.minimize p.text := by
  rw [minimize_eq_map]
  refine text_map (fun _ => rfl) (fun s t c hc => minimize_append_cons ?_ s t) p
  rcases hc with rfl | rfl <;> simp [IsCancelled]

/-- Minimizing a program exchanges its straight parts. -/
lemma relates_minimize (p : Program) : Exchange.minimizing.Relates p p.minimize := by
  rw [minimize_eq_map]
  exact Exchange.relates_map (fun _ => rfl) p

/-- The program stands somewhere in a text from where the run is clear. Behind a program
that is begun in the middle, without straight text of its own, there may be anything. -/
def Clear (p : Program) (m : Machine) : Prop :=
  ∃ behind ahead, (p.lead = .empty ∨ Bounds behind) ∧ Bounds ahead ∧
    Configuration.Clear ⟨⟨behind, p.text ++ ahead⟩, m⟩

/-- Minimizing a program leaves its structured runs as they are, wherever the program stands. -/
theorem Clear.run_minimize_iff {p : Program} {m : Machine} {e : Ending} (h : p.Clear m) :
    p.minimize.Run m e ↔ p.Run m e :=
  Exchange.run_iff p.relates_minimize h

/-- Minimizing a program leaves its structured runs as they are, if the run of the whole
program is clear. -/
theorem run_minimize_iff {p : Program} {m : Machine} {e : Ending}
    (hclear : (Configuration.start p.text m).Clear) : p.minimize.Run m e ↔ p.Run m e := by
  have hp : p.Clear m := Exchange.Keeps.of_start (x := .minimizing) hclear
  exact hp.run_minimize_iff

end Program

end TapeTower
