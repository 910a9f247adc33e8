import TapeTower.Proofs.Depth
import TapeTower.Proofs.Tree.Parser

/-!
# Balanced parentheses in a text

Normalizing a text keeps its parentheses (`skeleton_normalize`), so that a text that is read as a
tree is balanced (`balanced_of_parse`). What is cut off behind an opening parenthesis is balanced,
too (`balanced_of_splitGroup?`), and if nothing is cut off, the parenthesis is never closed
(`exists_firstUnmatched_of_splitGroup?`).
-/

namespace TapeTower.Tree

open Delimiters

/-! ### Normalized texts -/

/-- Trimming drops no parenthesis. -/
lemma skeleton_trim (text : List Char) : paren.skeleton (Text.trim text) = paren.skeleton text := by
  have hopen : Text.isBlank paren.opening = false := by decide
  have hclose : Text.isBlank paren.closing = false := by decide
  rw [Text.trim, skeleton_reverse, skeleton_dropWhile hopen hclose, skeleton_reverse,
    List.reverse_reverse, skeleton_dropWhile hopen hclose]

/-- A normalized text has the parentheses of the text. -/
lemma skeleton_normalize (text : List Char) :
    paren.skeleton (normalize text) = paren.skeleton text := by
  rw [normalize, skeleton_trim]
  refine skeleton_map (fun c => ?_) text
  split
  · next hblank => exact Or.inr (by rcases hblank with rfl | rfl | rfl <;> decide)
  · exact Or.inl rfl

/-! ### Cutting off a group -/

/-- A walk behind an opening parenthesis finds its partner unless no closing one leads below its
level. -/
lemma leaveLevel_paren_eq_none_iff {passed text : List Char} :
    leaveLevel '(' ')' 0 passed text = none ↔ paren.Covered 0 text := by
  have hwalk : leaveLevel '(' ')' 0 passed text = none ↔ paren.Covered (0 : Nat) text :=
    leaveLevel_eq_none_iff (d := paren)
  rwa [Int.natCast_zero] at hwalk

/-- Nothing is cut off behind an opening parenthesis exactly if no closing one leads below its
level. -/
lemma splitGroup?_eq_none_iff {text : List Char} :
    splitGroup? text = none ↔ paren.Covered 0 text := by
  have hwalk : leaveLevel '(' ')' 0 [] text = none ↔ paren.Covered 0 text :=
    leaveLevel_paren_eq_none_iff
  rw [splitGroup?, ← hwalk]
  split
  · next hsome =>
    rw [hsome]
    simp
  · next hnone =>
    refine ⟨fun _ => ?_, fun _ => rfl⟩
    rw [Option.eq_none_iff_forall_ne_some]
    rintro ⟨passed, rest⟩ hsome
    obtain ⟨inside, rfl, -⟩ := leaveLevel_eq_some hsome
    exact hnone _ _ _ hsome

/-- If nothing is cut off behind an opening parenthesis, it is never closed. -/
lemma exists_firstUnmatched_of_splitGroup? {text : List Char} (h : splitGroup? text = none) :
    ∃ i, paren.firstUnmatched ('(' :: text) = some (.opening, i) := by
  have hcovered := splitGroup?_eq_none_iff.mp h
  have hend := hcovered.netDepth_nonneg
  have hrise : paren.rise '(' = 1 := rfl
  rw [exists_firstUnmatched_opening_iff, covered_cons, netDepth_cons, hrise]
  exact ⟨⟨Int.le_refl 0, hcovered.mono (by decide)⟩, by omega⟩

/-- What is cut off behind an opening parenthesis is balanced. -/
lemma balanced_of_splitGroup? {text inside rest : List Char}
    (h : splitGroup? text = some (inside, rest)) : paren.Balanced inside := by
  unfold splitGroup? at h
  split at h
  · next hwalk =>
    cases h
    obtain ⟨inside, hpassed, -, hinside⟩ :=
      exists_balanced_of_leaveLevel (d := paren) (by decide) hwalk
    obtain ⟨-, rfl⟩ := List.cons.inj hpassed
    rwa [List.append_nil, List.reverse_reverse]
  · cases h

/-! ### Reading a text -/

/-- A text that is read as a tree is balanced. -/
theorem balanced_of_parse {text : List Char} {tree : Tree} (h : parse text = .ok tree) :
    paren.Balanced text := by
  have hspells := (parse_eq_ok_iff_spells.mp h).1
  have hitems : SpellsItems [tree] (normalize text) :=
    spellsItems_iff.mpr (spells_normalize_iff.mp hspells)
  exact (balanced_iff_of_skeleton_eq (by decide) (skeleton_normalize text)).mp hitems.balanced

end TapeTower.Tree
