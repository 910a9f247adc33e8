import Mathlib.Tactic.Common
import TapeTower.Cancellation
import TapeTower.Proofs.Depth

/-!
# Laws of cancellation

Cancelling opposites goes run by run. A character outside the pair divides a text
into parts that are cancelled on their own (`cancel_append_cons`), and a run of the
two opposites becomes the surplus of the more frequent one (`cancel_of_forall_mem`).
Every character outside the pair that stands in the cancelled text stands at the
corresponding point of the text itself (`exists_of_cancel_eq_append_cons`).
It makes no difference if the beginning or the end of a text is cancelled beforehand
(`cancel_cancel_append`, `cancel_append_cancel`).

For minimized programs this means that no character but the four that cancel is
touched: in particular the loop brackets stay where they are (`minimize_append_cons`).
-/

namespace TapeTower

namespace Opposites

lemma change_ne : change.first ≠ change.second := by decide

lemma move_ne : move.first ≠ move.second := by decide

variable {pair : Opposites} {c : Char}

/-! ### Runs -/

/-- The text under cancellation that a text becomes. -/
def Run.ofText (pair : Opposites) (text : List Char) : Run :=
  text.foldr (Run.cons pair) ⟨0, 0, []⟩

lemma cancel_eq_toText (text : List Char) :
    pair.cancel text = (Run.ofText pair text).toText pair := rfl

lemma Run.ofText_cons (x : Char) (text : List Char) :
    Run.ofText pair (x :: text) = (Run.ofText pair text).cons pair x := rfl

/-- What is left of a run of `firsts` and `seconds` opposites. -/
def surplus (pair : Opposites) (firsts seconds : Nat) : List Char :=
  if seconds < firsts then List.replicate (firsts - seconds) pair.first
  else List.replicate (seconds - firsts) pair.second

lemma Run.toText_eq (run : Run) :
    run.toText pair = pair.surplus run.firsts run.seconds ++ run.rest := by
  unfold Run.toText surplus
  split <;> rfl

lemma Run.cons_first (run : Run) :
    run.cons pair pair.first = { run with firsts := run.firsts + 1 } := by
  rw [Run.cons, if_pos rfl]

lemma Run.cons_second (hpair : pair.first ≠ pair.second) (run : Run) :
    run.cons pair pair.second = { run with seconds := run.seconds + 1 } := by
  rw [Run.cons, if_neg hpair.symm, if_pos rfl]

lemma Run.cons_other (hfirst : c ≠ pair.first) (hsecond : c ≠ pair.second) (run : Run) :
    run.cons pair c = ⟨0, 0, c :: run.toText pair⟩ := by
  rw [Run.cons, if_neg hfirst, if_neg hsecond]

lemma cancel_eq (text : List Char) :
    pair.cancel text =
      pair.surplus (Run.ofText pair text).firsts (Run.ofText pair text).seconds ++
        (Run.ofText pair text).rest := by
  rw [cancel_eq_toText, Run.toText_eq]

lemma cancel_cons_first (text : List Char) :
    pair.cancel (pair.first :: text) =
      pair.surplus ((Run.ofText pair text).firsts + 1) (Run.ofText pair text).seconds ++
        (Run.ofText pair text).rest := by
  rw [cancel_eq_toText, Run.ofText_cons, Run.cons_first, Run.toText_eq]

lemma cancel_cons_second (hpair : pair.first ≠ pair.second) (text : List Char) :
    pair.cancel (pair.second :: text) =
      pair.surplus (Run.ofText pair text).firsts ((Run.ofText pair text).seconds + 1) ++
        (Run.ofText pair text).rest := by
  rw [cancel_eq_toText, Run.ofText_cons, Run.cons_second hpair, Run.toText_eq]

/-! ### Surpluses -/

lemma surplus_succ_left {a b : Nat} (h : b ≤ a) :
    pair.surplus (a + 1) b = pair.first :: pair.surplus a b := by
  unfold surplus
  rw [if_pos (by omega)]
  rcases Nat.lt_or_eq_of_le h with hlt | rfl
  · rw [if_pos hlt, Nat.succ_sub h, List.replicate_succ]
  · simp

lemma surplus_succ_right {a b : Nat} (h : a ≤ b) :
    pair.surplus a (b + 1) = pair.second :: pair.surplus a b := by
  unfold surplus
  rw [if_neg (by omega), if_neg (by omega), Nat.succ_sub h, List.replicate_succ]

lemma surplus_succ_succ (a b : Nat) : pair.surplus (a + 1) (b + 1) = pair.surplus a b := by
  simp [surplus]

/-- The surplus depends only on the difference of the two counts. -/
lemma surplus_eq_of_add_eq {a b a' b' : Nat} (h : a + b' = a' + b) :
    pair.surplus a b = pair.surplus a' b' := by
  unfold surplus
  split
  · rw [if_pos (by omega), show a - b = a' - b' by omega]
  · rw [if_neg (by omega), show b - a = b' - a' by omega]

/-- All that is left of a run is the same character. -/
lemma eq_of_mem_surplus {x y : Char} {a b : Nat} (hx : x ∈ pair.surplus a b)
    (hy : y ∈ pair.surplus a b) : x = y := by
  unfold surplus at hx hy
  split at hx
  · rw [if_pos (by assumption)] at hy
    rw [List.eq_of_mem_replicate hx, List.eq_of_mem_replicate hy]
  · rw [if_neg (by assumption)] at hy
    rw [List.eq_of_mem_replicate hx, List.eq_of_mem_replicate hy]

/-- The surplus keeps the difference of the two counts. -/
lemma count_surplus (hpair : pair.first ≠ pair.second) (a b : Nat) :
    (pair.surplus a b).count pair.first + b = a + (pair.surplus a b).count pair.second := by
  unfold surplus
  split
  · rw [List.count_replicate_self, List.count_replicate, if_neg (by simpa using hpair)]
    omega
  · rw [List.count_replicate_self, List.count_replicate, if_neg (by simpa using hpair.symm)]
    omega

/-! ### Dividing a text -/

/-- A character outside the pair ends the leading run, and what stands from there on is
cancelled on its own. -/
lemma Run.ofText_append_cons (hfirst : c ≠ pair.first) (hsecond : c ≠ pair.second)
    (s t : List Char) :
    Run.ofText pair (s ++ c :: t) =
      { Run.ofText pair s with rest := (Run.ofText pair s).rest ++ c :: pair.cancel t } := by
  induction s with
  | nil => rw [List.nil_append, Run.ofText_cons, Run.cons_other hfirst hsecond]; rfl
  | cons x s ih =>
    rw [List.cons_append, Run.ofText_cons, Run.ofText_cons, ih]
    unfold Run.cons
    split
    · rfl
    · split
      · rfl
      · simp [Run.toText_eq]

/-- A character outside the pair divides a text into parts that are cancelled on their
own. -/
theorem cancel_append_cons (hfirst : c ≠ pair.first) (hsecond : c ≠ pair.second)
    (s t : List Char) : pair.cancel (s ++ c :: t) = pair.cancel s ++ c :: pair.cancel t := by
  rw [cancel_eq, Run.ofText_append_cons hfirst hsecond, cancel_eq s]
  simp

/-- A character outside the pair stays in front. -/
lemma cancel_cons (hfirst : c ≠ pair.first) (hsecond : c ≠ pair.second) (t : List Char) :
    pair.cancel (c :: t) = c :: pair.cancel t :=
  cancel_append_cons hfirst hsecond [] t

/-- A text without the pair stays in front. -/
lemma cancel_append_left {s : List Char} (hs : ∀ x ∈ s, x ≠ pair.first ∧ x ≠ pair.second)
    (t : List Char) : pair.cancel (s ++ t) = s ++ pair.cancel t := by
  induction s with
  | nil => rfl
  | cons x s ih =>
    obtain ⟨hx, hs⟩ := List.forall_mem_cons.mp hs
    rw [List.cons_append, cancel_cons hx.1 hx.2, ih hs, List.cons_append]

/-- A text without the pair stays behind. -/
lemma cancel_append_right {t : List Char} (ht : ∀ x ∈ t, x ≠ pair.first ∧ x ≠ pair.second)
    (s : List Char) : pair.cancel (s ++ t) = pair.cancel s ++ t := by
  cases t with
  | nil => rw [List.append_nil, List.append_nil]
  | cons x t =>
    obtain ⟨hx, ht⟩ := List.forall_mem_cons.mp ht
    have hnil : pair.cancel t = t := by
      simpa [cancel, Run.toText] using cancel_append_left ht []
    rw [cancel_append_cons hx.1 hx.2, hnil]

/-- A text without the pair divides another text, unless it is empty. -/
lemma cancel_append_append {y : List Char} (hy : ∀ x ∈ y, x ≠ pair.first ∧ x ≠ pair.second)
    (hne : y ≠ []) (s t : List Char) :
    pair.cancel (s ++ y ++ t) = pair.cancel s ++ y ++ pair.cancel t := by
  cases y with
  | nil => exact absurd rfl hne
  | cons x y =>
    obtain ⟨hx, hy⟩ := List.forall_mem_cons.mp hy
    rw [List.append_assoc, List.cons_append, cancel_append_cons hx.1 hx.2,
      cancel_append_left hy, List.append_assoc, List.cons_append]

/-! ### A run of opposites -/

/-- A run of the two opposites lengthens the leading run of the text behind it. -/
lemma Run.ofText_append_of_forall_mem (hpair : pair.first ≠ pair.second) {r : List Char}
    (hr : ∀ x ∈ r, x = pair.first ∨ x = pair.second) (t : List Char) :
    Run.ofText pair (r ++ t) =
      ⟨(Run.ofText pair t).firsts + r.count pair.first,
        (Run.ofText pair t).seconds + r.count pair.second, (Run.ofText pair t).rest⟩ := by
  induction r with
  | nil => rfl
  | cons x r ih =>
    rw [List.cons_append, Run.ofText_cons, ih fun y hy => hr y (by simp [hy])]
    rcases hr x (by simp) with rfl | rfl
    · rw [Run.cons_first, List.count_cons_self, List.count_cons_of_ne hpair, Nat.add_assoc]
    · rw [Run.cons_second hpair, List.count_cons_self, List.count_cons_of_ne hpair.symm,
        Nat.add_assoc]

/-- A run of the two opposites becomes their surplus. -/
theorem cancel_of_forall_mem (hpair : pair.first ≠ pair.second) {text : List Char}
    (h : ∀ x ∈ text, x = pair.first ∨ x = pair.second) :
    pair.cancel text = pair.surplus (text.count pair.first) (text.count pair.second) := by
  have hrun : Run.ofText pair text = ⟨text.count pair.first, text.count pair.second, []⟩ := by
    have happend := Run.ofText_append_of_forall_mem hpair h []
    rw [List.append_nil] at happend
    rw [happend]
    simp [Run.ofText]
  rw [cancel_eq, hrun, List.append_nil]

/-- A run of the first opposite alone is left as it is. -/
lemma cancel_replicate_first (hpair : pair.first ≠ pair.second) (n : Nat) :
    pair.cancel (List.replicate n pair.first) = List.replicate n pair.first := by
  rw [cancel_of_forall_mem hpair fun x hx => Or.inl (List.eq_of_mem_replicate hx)]
  have hsecond : (List.replicate n pair.first).count pair.second = 0 := by
    simp [List.count_replicate, hpair]
  rw [hsecond, List.count_replicate_self]
  cases n with
  | zero => rfl
  | succ n => simp [surplus]

/-- A run of the second opposite alone is left as it is. -/
lemma cancel_replicate_second (hpair : pair.first ≠ pair.second) (n : Nat) :
    pair.cancel (List.replicate n pair.second) = List.replicate n pair.second := by
  rw [cancel_of_forall_mem hpair fun x hx => Or.inr (List.eq_of_mem_replicate hx)]
  have hfirst : (List.replicate n pair.second).count pair.first = 0 := by
    simp [List.count_replicate, hpair.symm]
  rw [hfirst, List.count_replicate_self]
  simp [surplus]

/-! ### Induction along the runs -/

/-- A text is a stretch of characters of one kind, or such a stretch in front of another
character and a further text. -/
theorem stretch_induction (kind : Char → Prop) {motive : List Char → Prop}
    (stretch : ∀ r : List Char, (∀ x ∈ r, kind x) → motive r)
    (other : ∀ (r : List Char) (c : Char) (t : List Char),
      (∀ x ∈ r, kind x) → ¬ kind c → motive t → motive (r ++ c :: t))
    (text : List Char) : motive text := by
  suffices h : ∀ r : List Char, (∀ x ∈ r, kind x) → motive (r ++ text) from h [] (by simp)
  induction text with
  | nil =>
    intro r hr
    rw [List.append_nil]
    exact stretch r hr
  | cons x t ih =>
    intro r hr
    by_cases hx : kind x
    · have hmore := ih (r ++ [x]) (by
        intro y hy
        rcases List.mem_append.mp hy with hy | hy
        · exact hr y hy
        · rwa [List.mem_singleton.mp hy])
      rwa [List.append_assoc] at hmore
    · exact other r x t hr hx (ih [] (by simp))

/-- A text is a run of the two opposites, or such a run in front of another character
and a further text. -/
theorem run_induction (pair : Opposites) {motive : List Char → Prop}
    (run : ∀ r : List Char, (∀ x ∈ r, x = pair.first ∨ x = pair.second) → motive r)
    (other : ∀ (r : List Char) (c : Char) (t : List Char),
      (∀ x ∈ r, x = pair.first ∨ x = pair.second) → c ≠ pair.first → c ≠ pair.second →
        motive t → motive (r ++ c :: t))
    (text : List Char) : motive text := by
  refine stretch_induction (fun x => x = pair.first ∨ x = pair.second) run ?_ text
  intro r c t hr hc
  rw [not_or] at hc
  exact other r c t hr hc.1 hc.2

/-- The surplus of a run holds one of the opposites, and only if the run does. -/
lemma mem_of_mem_surplus {x : Char} {text : List Char}
    (h : x ∈ pair.surplus (text.count pair.first) (text.count pair.second)) : x ∈ text := by
  unfold surplus at h
  split at h
  · obtain ⟨hne, rfl⟩ := List.mem_replicate.mp h
    exact List.count_pos_iff.mp (by omega)
  · obtain ⟨hne, rfl⟩ := List.mem_replicate.mp h
    exact List.count_pos_iff.mp (by omega)

/-- A cancelled text holds no characters but those of the text. -/
lemma mem_of_mem_cancel (hpair : pair.first ≠ pair.second) {x : Char} {text : List Char}
    (h : x ∈ pair.cancel text) : x ∈ text := by
  induction text using run_induction pair with
  | run r hr =>
    rw [cancel_of_forall_mem hpair hr] at h
    exact mem_of_mem_surplus h
  | other r c t hr hfirst hsecond ih =>
    rw [cancel_append_cons hfirst hsecond, cancel_of_forall_mem hpair hr] at h
    rcases List.mem_append.mp h with h | h
    · exact List.mem_append_left _ (mem_of_mem_surplus h)
    · rcases List.mem_cons.mp h with rfl | h
      · simp
      · simp [ih h]

/-- Where a cancelled text is divided by a character outside the pair, the text itself
is divided by it as well. -/
theorem exists_of_cancel_eq_append_cons (hpair : pair.first ≠ pair.second)
    (hfirst : c ≠ pair.first) (hsecond : c ≠ pair.second) {text u v : List Char}
    (h : pair.cancel text = u ++ c :: v) :
    ∃ s t, text = s ++ c :: t ∧ pair.cancel s = u ∧ pair.cancel t = v := by
  induction text using run_induction pair generalizing u with
  | run r hr =>
    have hc : c ∈ r := mem_of_mem_cancel hpair (by simp [h])
    rcases hr c hc with rfl | rfl
    · exact absurd rfl hfirst
    · exact absurd rfl hsecond
  | other r d t hr hdfirst hdsecond ih =>
    rw [cancel_append_cons hdfirst hdsecond] at h
    rcases List.append_eq_append_iff.mp h with ⟨w, rfl, hw⟩ | ⟨w, hrun, hw⟩
    · cases w with
      | nil =>
        obtain ⟨rfl, rfl⟩ := List.cons.inj hw
        exact ⟨r, t, rfl, by simp, rfl⟩
      | cons d' w =>
        rw [List.cons_append] at hw
        obtain ⟨rfl, htail⟩ := List.cons.inj hw
        obtain ⟨s, t', rfl, hs, ht'⟩ := ih htail
        refine ⟨r ++ d :: s, t', by simp, ?_, ht'⟩
        rw [cancel_append_cons hdfirst hdsecond, hs]
    · cases w with
      | nil =>
        obtain ⟨rfl, rfl⟩ := List.cons.inj hw
        exact ⟨r, t, rfl, by simpa using hrun, rfl⟩
      | cons c' w =>
        -- The dividing character would stand in the cancelled run.
        obtain ⟨rfl, -⟩ := List.cons.inj hw
        have hc : c ∈ r := mem_of_mem_cancel hpair (by simp [hrun])
        rcases hr c hc with rfl | rfl
        · exact absurd rfl hfirst
        · exact absurd rfl hsecond

/-- Cancelling leaves alone what is not of the pair. -/
lemma filter_cancel (hpair : pair.first ≠ pair.second) {p : Char → Bool}
    (hfirst : p pair.first = false) (hsecond : p pair.second = false) (text : List Char) :
    (pair.cancel text).filter p = text.filter p := by
  have hrun : ∀ r : List Char, (∀ x ∈ r, x = pair.first ∨ x = pair.second) →
      r.filter p = [] ∧ (pair.cancel r).filter p = [] := by
    intro r hr
    have hfalse : ∀ x ∈ r, ¬ p x = true := by
      intro x hx
      rcases hr x hx with rfl | rfl
      · simp [hfirst]
      · simp [hsecond]
    exact ⟨List.filter_eq_nil_iff.mpr hfalse,
      List.filter_eq_nil_iff.mpr fun x hx => hfalse x (mem_of_mem_cancel hpair hx)⟩
  induction text using run_induction pair with
  | run r hr =>
    obtain ⟨hr, hcancel⟩ := hrun r hr
    rw [hr, hcancel]
  | other r c t hr hfirst hsecond ih =>
    obtain ⟨hr, hcancel⟩ := hrun r hr
    rw [cancel_append_cons hfirst hsecond, List.filter_append, List.filter_append, hr, hcancel,
      List.filter_cons, List.filter_cons, ih]

/-- Cancelling leaves all delimiters where they are that are not of the pair. -/
lemma skeleton_cancel {d : Delimiters Char} (hpair : pair.first ≠ pair.second)
    (hopen : d.opening ≠ pair.first ∧ d.opening ≠ pair.second)
    (hclose : d.closing ≠ pair.first ∧ d.closing ≠ pair.second) (text : List Char) :
    d.skeleton (pair.cancel text) = d.skeleton text := by
  refine filter_cancel hpair ?_ ?_ text
  · simp [hopen.1.symm, hclose.1.symm]
  · simp [hopen.2.symm, hclose.2.symm]

/-! ### Cancelling in parts -/

/-- Texts under cancellation that make no difference to what stands in front of them. -/
def Run.Same (run run' : Run) : Prop :=
  run.rest = run'.rest ∧ run.firsts + run'.seconds = run'.firsts + run.seconds

namespace Run.Same

variable {run run' : Run}

lemma toText (h : run.Same run') : run.toText pair = run'.toText pair := by
  rw [toText_eq, toText_eq, h.1, surplus_eq_of_add_eq h.2]

lemma cons (h : run.Same run') (c : Char) : (run.cons pair c).Same (run'.cons pair c) := by
  obtain ⟨hrest, hcounts⟩ := h
  by_cases hfirst : c = pair.first
  · rw [Run.cons, Run.cons, if_pos hfirst, if_pos hfirst]
    exact ⟨hrest, by dsimp only; omega⟩
  · by_cases hsecond : c = pair.second
    · rw [Run.cons, Run.cons, if_neg hfirst, if_neg hfirst, if_pos hsecond, if_pos hsecond]
      exact ⟨hrest, by dsimp only; omega⟩
    · rw [cons_other hfirst hsecond, cons_other hfirst hsecond, toText ⟨hrest, hcounts⟩]
      exact ⟨rfl, rfl⟩

lemma append {t t' : List Char} (h : (ofText pair t).Same (ofText pair t')) (s : List Char) :
    (ofText pair (s ++ t)).Same (ofText pair (s ++ t')) := by
  induction s with
  | nil => exact h
  | cons x s ih => exact ih.cons x

end Run.Same

/-- What is left of a run is as good as the run. -/
lemma Run.same_cancel_append (hpair : pair.first ≠ pair.second) {r : List Char}
    (hr : ∀ x ∈ r, x = pair.first ∨ x = pair.second) (t : List Char) :
    (ofText pair (pair.cancel r ++ t)).Same (ofText pair (r ++ t)) := by
  have hcancel : ∀ x ∈ pair.cancel r, x = pair.first ∨ x = pair.second :=
    fun x hx => hr x (mem_of_mem_cancel hpair hx)
  have hcount := count_surplus hpair (r.count pair.first) (r.count pair.second)
  rw [← cancel_of_forall_mem hpair hr] at hcount
  rw [ofText_append_of_forall_mem hpair hcancel, ofText_append_of_forall_mem hpair hr]
  exact ⟨rfl, by dsimp only; omega⟩

/-- The cancelled text is as good as the text. -/
lemma Run.same_cancel (hpair : pair.first ≠ pair.second) (text : List Char) :
    (ofText pair (pair.cancel text)).Same (ofText pair text) := by
  induction text using run_induction pair with
  | run r hr => simpa using same_cancel_append hpair hr []
  | other r c t hr hfirst hsecond ih =>
    have hrun := same_cancel_append hpair hr []
    rw [List.append_nil, List.append_nil] at hrun
    have hcancel : pair.cancel (pair.cancel t) = pair.cancel t := ih.toText
    rw [cancel_append_cons hfirst hsecond, ofText_append_cons hfirst hsecond,
      ofText_append_cons hfirst hsecond, hcancel]
    exact ⟨by dsimp only; rw [hrun.1], hrun.2⟩

/-- The end of a text may be cancelled beforehand. -/
theorem cancel_append_cancel (hpair : pair.first ≠ pair.second) (s t : List Char) :
    pair.cancel (s ++ pair.cancel t) = pair.cancel (s ++ t) :=
  ((Run.same_cancel hpair t).append s).toText

/-- Cancelling twice is cancelling once. -/
lemma cancel_cancel (hpair : pair.first ≠ pair.second) (text : List Char) :
    pair.cancel (pair.cancel text) = pair.cancel text :=
  cancel_append_cancel hpair [] text

/-- The beginning of a text may be cancelled beforehand. -/
theorem cancel_cancel_append (hpair : pair.first ≠ pair.second) (s t : List Char) :
    pair.cancel (pair.cancel s ++ t) = pair.cancel (s ++ t) := by
  induction s using run_induction pair with
  | run r hr => exact (Run.same_cancel_append hpair hr t).toText
  | other r c s hr hfirst hsecond ih =>
    rw [cancel_append_cons hfirst hsecond, List.append_assoc, List.append_assoc, List.cons_append,
      List.cons_append, cancel_append_cons hfirst hsecond, cancel_append_cons hfirst hsecond,
      cancel_cancel hpair, ih]

/-- Cancelling keeps the difference of the two counts. -/
lemma count_cancel (hpair : pair.first ≠ pair.second) (text : List Char) :
    (pair.cancel text).count pair.first + text.count pair.second =
      text.count pair.first + (pair.cancel text).count pair.second := by
  induction text using run_induction pair with
  | run r hr =>
    rw [cancel_of_forall_mem hpair hr]
    exact count_surplus hpair _ _
  | other r c t hr hfirst hsecond ih =>
    have hrun := count_surplus hpair (r.count pair.first) (r.count pair.second)
    rw [← cancel_of_forall_mem hpair hr] at hrun
    simp only [cancel_append_cons hfirst hsecond, List.count_append,
      List.count_cons_of_ne hfirst, List.count_cons_of_ne hsecond]
    omega

end Opposites

/-! ### Minimized programs -/

open Opposites

/-- A character that minimizing may take away. -/
def IsCancelled (c : Char) : Prop := c = '+' ∨ c = '-' ∨ c = '>' ∨ c = '<'

variable {c : Char}

/-- Any character that minimizing may not take away divides a program into parts that
are minimized on their own. -/
theorem minimize_append_cons (hc : ¬ IsCancelled c) (s t : List Char) :
    minimize (s ++ c :: t) = minimize s ++ c :: minimize t := by
  simp only [IsCancelled, not_or] at hc
  obtain ⟨hplus, hminus, hright, hleft⟩ := hc
  have hchange : c ≠ change.first ∧ c ≠ change.second := ⟨hplus, hminus⟩
  have hmove : c ≠ move.first ∧ c ≠ move.second := ⟨hright, hleft⟩
  rw [minimize, cancel_append_cons hchange.1 hchange.2, cancel_append_cons hmove.1 hmove.2]
  rfl

/-- A minimized program has the loop brackets of the program. -/
lemma skeleton_minimize (code : List Char) :
    Delimiters.loop.skeleton (minimize code) = Delimiters.loop.skeleton code := by
  rw [minimize, skeleton_cancel move_ne (by decide) (by decide),
    skeleton_cancel change_ne (by decide) (by decide)]

/-- A minimized program holds no characters but those of the program. -/
lemma mem_of_mem_minimize {x : Char} {code : List Char} (h : x ∈ minimize code) : x ∈ code :=
  mem_of_mem_cancel change_ne (mem_of_mem_cancel move_ne h)

end TapeTower
