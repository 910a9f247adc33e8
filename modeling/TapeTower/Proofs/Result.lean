import Mathlib.Data.List.Forall2
import Mathlib.Tactic.Common

/-!
# Results

A computation that may meet a fault succeeds exactly if each of its parts does. This is
said once for each way of putting computations together.
-/

namespace TapeTower

variable {ε α β : Type}

/-- One computation after another. -/
lemma bind_eq_ok_iff {x : Except ε α} {f : α → Except ε β} {b : β} :
    x >>= f = .ok b ↔ ∃ a, x = .ok a ∧ f a = .ok b := by
  cases x with
  | error fault => simp [bind, Except.bind]
  | ok a => simp [bind, Except.bind]

/-- One computation after another fails if the first fails or the second. -/
lemma bind_eq_error_iff {x : Except ε α} {f : α → Except ε β} {fault : ε} :
    x >>= f = .error fault ↔ x = .error fault ∨ ∃ a, x = .ok a ∧ f a = .error fault := by
  cases x with
  | error fault' => simp [bind, Except.bind]
  | ok a => simp [bind, Except.bind]

/-- A computation whose result is taken further. -/
lemma map_eq_ok_iff {x : Except ε α} {f : α → β} {b : β} :
    x.map f = .ok b ↔ ∃ a, x = .ok a ∧ f a = b := by
  cases x with
  | error fault => simp [Except.map]
  | ok a => simp [Except.map]

/-- The same computation for each item of a list. -/
lemma mapM_eq_ok_iff {f : α → Except ε β} {items : List α} {results : List β} :
    items.mapM f = .ok results ↔
      List.Forall₂ (fun item result => f item = .ok result) items results := by
  induction items generalizing results with
  | nil =>
    rw [List.mapM_nil, List.forall₂_nil_left_iff]
    exact ⟨fun h => (Except.ok.inj h).symm, fun h => congrArg Except.ok h.symm⟩
  | cons item items ih =>
    rw [List.mapM_cons, bind_eq_ok_iff, List.forall₂_cons_left_iff]
    constructor
    · rintro ⟨result, hresult, hrest⟩
      obtain ⟨results', hresults', hpure⟩ := bind_eq_ok_iff.mp hrest
      exact ⟨result, results', hresult, ih.mp hresults', (Except.ok.inj hpure).symm⟩
    · rintro ⟨result, results', hresult, hresults', rfl⟩
      exact ⟨result, hresult, bind_eq_ok_iff.mpr ⟨results', ih.mpr hresults', rfl⟩⟩

/-- The same computation for each item fails at one of them. -/
lemma exists_of_mapM_eq_error {f : α → Except ε β} {items : List α} {fault : ε}
    (h : items.mapM f = .error fault) : ∃ item ∈ items, f item = .error fault := by
  induction items with
  | nil => cases h
  | cons item items ih =>
    rw [List.mapM_cons, bind_eq_error_iff] at h
    rcases h with hitem | ⟨_, -, hrest⟩
    · exact ⟨item, by simp, hitem⟩
    · rcases bind_eq_error_iff.mp hrest with hitems | ⟨_, -, hpure⟩
      · obtain ⟨item', hmem, hitem'⟩ := ih hitems
        exact ⟨item', by simp [hmem], hitem'⟩
      · cases hpure

end TapeTower
