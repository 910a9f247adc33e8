import Mathlib.Logic.Relation
import TapeTower.Proofs.Cancellation

/-!
# Cancellation as deletion

Cancelling counts the opposites of each run. It can also be said without runs and without counting:
wherever two opposites stand next to each other, both are deleted (`Deletes`), in any order and as
long as there are any. A text in which none are left is `Reduced`.

Two facts connect the two. A deletion does not change what a text is cancelled to, since the counts
of its run keep their difference (`Deletes.cancel_eq`). And a text leads to its cancelled text by
deletions, at most one for each of its characters (`deletesTo_cancel`). It follows that deletions
end in the cancelled text whatever their order is: it is the only reduced text that they lead to
(`deletesTo_and_reduced_iff`).
-/

namespace TapeTower.Opposites

variable {pair : Opposites} {s t text : List Char}

/-! ### Deletions -/

variable (pair) in
/-- Two opposites that stand next to each other are deleted. -/
inductive Deletes : List Char → List Char → Prop
  | first_second (u v : List Char) : Deletes (u ++ pair.first :: pair.second :: v) (u ++ v)
  | second_first (u v : List Char) : Deletes (u ++ pair.second :: pair.first :: v) (u ++ v)

variable (pair) in
/-- Any number of deletions, one after the other. -/
def DeletesTo : List Char → List Char → Prop := Relation.ReflTransGen pair.Deletes

variable (pair) in
/-- No two opposites stand next to each other. -/
def Reduced (text : List Char) : Prop :=
  ¬ [pair.first, pair.second] <:+: text ∧ ¬ [pair.second, pair.first] <:+: text

lemma Deletes.cons (h : pair.Deletes s t) (c : Char) : pair.Deletes (c :: s) (c :: t) := by
  cases h with
  | first_second u v => exact .first_second (c :: u) v
  | second_first u v => exact .second_first (c :: u) v

lemma Deletes.length_lt (h : pair.Deletes s t) : t.length < s.length := by
  cases h with
  | first_second u v =>
    simp only [List.length_append, List.length_cons]
    omega
  | second_first u v =>
    simp only [List.length_append, List.length_cons]
    omega

lemma DeletesTo.cons (h : pair.DeletesTo s t) (c : Char) : pair.DeletesTo (c :: s) (c :: t) :=
  Relation.ReflTransGen.lift (c :: ·) (fun _ _ hdelete => Deletes.cons hdelete c) _ _ h

lemma DeletesTo.length_le (h : pair.DeletesTo s t) : t.length ≤ s.length := by
  induction h with
  | refl => exact Nat.le_refl _
  | tail _ hdelete ih => exact Nat.le_trans (Nat.le_of_lt hdelete.length_lt) ih

/-- A text is reduced if there is nothing to delete. -/
lemma reduced_iff : pair.Reduced s ↔ ∀ t, ¬ pair.Deletes s t := by
  constructor
  · rintro ⟨hfirst, hsecond⟩ t h
    cases h with
    | first_second u v => exact hfirst ⟨u, v, by simp⟩
    | second_first u v => exact hsecond ⟨u, v, by simp⟩
  · intro h
    constructor
    · rintro ⟨u, v, rfl⟩
      exact h (u ++ v) (by simpa using Deletes.first_second u v)
    · rintro ⟨u, v, rfl⟩
      exact h (u ++ v) (by simpa using Deletes.second_first u v)

/-- Deletions leave a reduced text as it is. -/
lemma Reduced.eq_of_deletesTo (hs : pair.Reduced s) (h : pair.DeletesTo s t) : t = s := by
  rcases Relation.ReflTransGen.cases_head h with rfl | ⟨u, hdelete, -⟩
  · rfl
  · exact absurd hdelete (reduced_iff.mp hs u)

/-! ### What a deletion does to the counts -/

/-- Two opposites in front of a text lengthen its leading run on both sides. -/
lemma Run.same_opposites (hpair : pair.first ≠ pair.second) (v : List Char) :
    (ofText pair (pair.first :: pair.second :: v)).Same (ofText pair v) ∧
      (ofText pair (pair.second :: pair.first :: v)).Same (ofText pair v) := by
  simp only [ofText_cons, cons_first, cons_second hpair]
  exact ⟨⟨rfl, by dsimp only; omega⟩, ⟨rfl, by dsimp only; omega⟩⟩

/-- A deletion does not change what a text is cancelled to. -/
theorem Deletes.cancel_eq (hpair : pair.first ≠ pair.second) (h : pair.Deletes s t) :
    pair.cancel s = pair.cancel t := by
  cases h with
  | first_second u v => exact ((Run.same_opposites hpair v).1.append u).toText
  | second_first u v => exact ((Run.same_opposites hpair v).2.append u).toText

lemma DeletesTo.cancel_eq (hpair : pair.first ≠ pair.second) (h : pair.DeletesTo s t) :
    pair.cancel s = pair.cancel t := by
  induction h with
  | refl => rfl
  | tail _ hdelete ih => exact ih.trans (hdelete.cancel_eq hpair)

/-! ### From a text to its cancelled text -/

/-- One more of the first opposites is deleted together with one of the second, if these are left
over, and is left over itself otherwise. -/
lemma deletesTo_cons_first (text : List Char) :
    pair.DeletesTo (pair.first :: pair.cancel text) (pair.cancel (pair.first :: text)) := by
  rw [cancel_eq text, cancel_cons_first]
  generalize (Run.ofText pair text).firsts = a
  generalize (Run.ofText pair text).seconds = b
  rcases Nat.lt_or_ge a b with hlt | hle
  · obtain ⟨b, rfl⟩ : ∃ n, b = n + 1 := ⟨b - 1, by omega⟩
    rw [surplus_succ_succ, surplus_succ_right (Nat.le_of_lt_succ hlt)]
    exact Relation.ReflTransGen.single (.first_second [] _)
  · rw [surplus_succ_left hle]
    exact Relation.ReflTransGen.refl

lemma deletesTo_cons_second (hpair : pair.first ≠ pair.second) (text : List Char) :
    pair.DeletesTo (pair.second :: pair.cancel text) (pair.cancel (pair.second :: text)) := by
  rw [cancel_eq text, cancel_cons_second hpair]
  generalize (Run.ofText pair text).firsts = a
  generalize (Run.ofText pair text).seconds = b
  rcases Nat.lt_or_ge b a with hlt | hle
  · obtain ⟨a, rfl⟩ : ∃ n, a = n + 1 := ⟨a - 1, by omega⟩
    rw [surplus_succ_succ, surplus_succ_left (Nat.le_of_lt_succ hlt)]
    exact Relation.ReflTransGen.single (.second_first [] _)
  · rw [surplus_succ_right hle]
    exact Relation.ReflTransGen.refl

/-- A text leads to its cancelled text by deletions. -/
theorem deletesTo_cancel (hpair : pair.first ≠ pair.second) (text : List Char) :
    pair.DeletesTo text (pair.cancel text) := by
  induction text with
  | nil => exact Relation.ReflTransGen.refl
  | cons c text ih =>
    -- The tail is cancelled first, and then at most one deletion is left to do.
    refine Relation.ReflTransGen.trans (ih.cons c) ?_
    by_cases hfirst : c = pair.first
    · subst hfirst
      exact deletesTo_cons_first text
    · by_cases hsecond : c = pair.second
      · subst hsecond
        exact deletesTo_cons_second hpair text
      · rw [cancel_cons hfirst hsecond]

/-- Nothing is left to delete in a cancelled text: what it is cancelled to would be shorter. -/
theorem reduced_cancel (hpair : pair.first ≠ pair.second) (text : List Char) :
    pair.Reduced (pair.cancel text) := by
  rw [reduced_iff]
  intro t hdelete
  have hlength := (deletesTo_cancel hpair t).length_le
  rw [← hdelete.cancel_eq hpair, cancel_cancel hpair] at hlength
  exact absurd hdelete.length_lt (Nat.not_lt.mpr hlength)

/-- Whatever their order is, deletions end in the cancelled text. -/
theorem deletesTo_and_reduced_iff (hpair : pair.first ≠ pair.second) :
    pair.DeletesTo text t ∧ pair.Reduced t ↔ t = pair.cancel text := by
  constructor
  · rintro ⟨h, hreduced⟩
    rw [h.cancel_eq hpair]
    exact (hreduced.eq_of_deletesTo (deletesTo_cancel hpair t)).symm
  · rintro rfl
    exact ⟨deletesTo_cancel hpair text, reduced_cancel hpair text⟩

/-! ### A character that is its own opposite -/

/-- If the two opposites are one character, all of a run is its surplus. -/
lemma cancel_eq_self (hpair : pair.first = pair.second) (text : List Char) :
    pair.cancel text = text := by
  have hnone : ∀ text : List Char, (Run.ofText pair text).seconds = 0 := by
    intro text
    induction text with
    | nil => rfl
    | cons c text ih =>
      rw [Run.ofText_cons, Run.cons, ← hpair]
      split
      · exact ih
      · rfl
  induction text with
  | nil => rfl
  | cons c text ih =>
    by_cases hc : c = pair.first
    · subst hc
      rw [cancel_eq, hnone] at ih
      rw [cancel_cons_first, hnone, surplus_succ_left (Nat.zero_le _), List.cons_append, ih]
    · rw [cancel_cons hc (hpair ▸ hc), ih]

/-! ### Cancellation is free -/

/-- Cancelling two different opposites leads to the only reduced text that deletions lead to. So
nothing changes when it is done twice, or when two opposites are put next to each other somewhere in
a text, and the other characters stay as they are. A character that is its own opposite is not
cancelled. -/
theorem cancel_isFree (pair : Opposites) (text : List Char) :
    (pair.first ≠ pair.second →
      (∀ t, pair.DeletesTo text t ∧ pair.Reduced t ↔ t = pair.cancel text) ∧
        pair.cancel (pair.cancel text) = pair.cancel text ∧
        (∀ u v, pair.cancel (u ++ [pair.first, pair.second] ++ v) = pair.cancel (u ++ v) ∧
          pair.cancel (u ++ [pair.second, pair.first] ++ v) = pair.cancel (u ++ v)) ∧
        (pair.cancel text).filter (fun c => c ≠ pair.first ∧ c ≠ pair.second) =
          text.filter fun c => c ≠ pair.first ∧ c ≠ pair.second) ∧
    (pair.first = pair.second → pair.cancel text = text) := by
  refine ⟨fun hpair => ⟨?_, cancel_cancel hpair text, ?_, ?_⟩, ?_⟩
  · exact fun t => deletesTo_and_reduced_iff hpair
  · intro u v
    rw [List.append_assoc, List.append_assoc]
    exact ⟨(Deletes.first_second u v).cancel_eq hpair, (Deletes.second_first u v).cancel_eq hpair⟩
  · exact filter_cancel hpair (by simp) (by simp) text
  · exact fun hpair => cancel_eq_self hpair text

/-- A run of as many opposites of each kind vanishes, in which there are two ways to begin with the
deletions. Comments end a run. -/
theorem cancel_isFree_tie :
    change.first ≠ change.second ∧ change.cancel "+--+ -++.-".toList = " +.-".toList ∧
      change.Deletes "+--+ -++.-".toList "-+ -++.-".toList ∧
      change.Deletes "+--+ -++.-".toList "+- -++.-".toList ∧
      (∀ t, change.DeletesTo "+--+ -++.-".toList t ∧ change.Reduced t ↔ t = " +.-".toList) ∧
      (⟨'+', '+'⟩ : Opposites).cancel "++-+".toList = "++-+".toList := by
  obtain ⟨hfree, -⟩ := cancel_isFree change "+--+ -++.-".toList
  obtain ⟨-, hself⟩ := cancel_isFree ⟨'+', '+'⟩ "++-+".toList
  exact ⟨change_ne, rfl, .first_second [] _, .second_first ['+', '-'] _, (hfree change_ne).1,
    hself rfl⟩

end TapeTower.Opposites
