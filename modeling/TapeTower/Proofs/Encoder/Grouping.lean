import Mathlib.Data.List.Perm.Basic
import Mathlib.Data.List.SplitBy
import TapeTower.Encoder

/-!
# Groups of targets

The loop encoder sorts the targets by their codes, divides them where the tens of the codes
change and sorts each group by index. Whatever the order of the groups, nothing is lost and
nothing is doubled by it (`flatten_groups_perm`), and in each group the targets come from left to
right (`ascending_of_mem_groups`).
-/

namespace TapeTower.Encoder

/-- Rounding to tens makes no number greater. -/
lemma tens_le (code : Nat) : tens code ≤ code := by
  unfold tens
  dsimp only
  split <;> omega

/-- The groups are made of the targets, each in one of them. -/
theorem flatten_groups_perm (targets : List Target) : (groups targets).flatten.Perm targets := by
  have hsort : ∀ group : List Target,
      (group.mergeSort fun s t => decide (s.index ≤ t.index)).Perm group :=
    fun group => List.mergeSort_perm group _
  have hgroups : (groups targets).flatten.Perm
      (targets.mergeSort fun s t => decide (t.code ≤ s.code)) := by
    unfold groups
    rw [← List.flatMap_def]
    refine (List.Perm.flatMap_left _ fun group _ => hsort group).trans ?_
    rw [List.flatMap_id', List.flatten_splitBy]
  exact hgroups.trans (List.mergeSort_perm targets _)

/-- Sorting by index puts targets of different cells in ascending order. -/
lemma ascending_mergeSort {group : List Target} (h : (group.map Target.index).Nodup) :
    (group.mergeSort fun s t => decide (s.index ≤ t.index)).Pairwise
      fun s t => s.index < t.index := by
  have hsorted : (group.mergeSort fun s t => decide (s.index ≤ t.index)).Pairwise
      fun s t => decide (s.index ≤ t.index) = true := by
    refine List.pairwise_mergeSort ?_ ?_ group
    · intro r s t hrs hst
      simp only [decide_eq_true_eq] at hrs hst ⊢
      omega
    · intro s t
      simp only [Bool.or_eq_true, decide_eq_true_eq]
      omega
  have hdistinct : (group.mergeSort fun s t => decide (s.index ≤ t.index)).Pairwise
      fun s t => s.index ≠ t.index := by
    have hperm := (List.mergeSort_perm group fun s t => decide (s.index ≤ t.index)).map Target.index
    exact List.pairwise_map.mp (hperm.nodup_iff.mpr h)
  refine (hsorted.and hdistinct).imp ?_
  rintro s t ⟨hle, hne⟩
  simp only [decide_eq_true_eq] at hle
  omega

/-- Each of the groups is a sorted part of the targets. -/
lemma exists_part_of_mem_groups {targets group : List Target} (h : group ∈ groups targets) :
    ∃ part, part ≠ [] ∧ group = part.mergeSort (fun s t => decide (s.index ≤ t.index)) ∧
      part.Sublist (targets.mergeSort fun s t => decide (t.code ≤ s.code)) := by
  obtain ⟨part, hpart, rfl⟩ := List.mem_map.mp h
  refine ⟨part, List.ne_nil_of_mem_splitBy hpart, rfl, ?_⟩
  have hsub := List.sublist_flatten_of_mem hpart
  rwa [List.flatten_splitBy] at hsub

/-- None of the groups is empty. -/
lemma ne_nil_of_mem_groups {targets group : List Target} (h : group ∈ groups targets) :
    group ≠ [] := by
  obtain ⟨part, hne, rfl, -⟩ := exists_part_of_mem_groups h
  intro hnil
  have hperm := List.mergeSort_perm part fun s t => decide (s.index ≤ t.index)
  rw [hnil] at hperm
  exact hne hperm.symm.eq_nil

/-- The targets of a group come one after the other. -/
theorem ascending_of_mem_groups {targets group : List Target}
    (hnodup : (targets.map Target.index).Nodup) (h : group ∈ groups targets) :
    group.Pairwise fun s t => s.index < t.index := by
  obtain ⟨part, -, rfl, hsub⟩ := exists_part_of_mem_groups h
  have hsorted := ((List.mergeSort_perm targets fun s t => decide (t.code ≤ s.code)).map
    Target.index).nodup_iff.mpr hnodup
  exact ascending_mergeSort ((hsub.map Target.index).nodup hsorted)

end TapeTower.Encoder
