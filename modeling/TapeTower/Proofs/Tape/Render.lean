import Mathlib.Data.List.TakeWhile
import TapeTower.Proofs.Tape

/-!
# Reading a tape off its text

The text of a tape shows its cells one blank apart, with stars around the one under the cursor, and
it ends with the cursor or with the last cell that is not zero. Nothing is lost by this: cut at its
blanks, the text gives one word for each cell that is shown (`splitOn_render`), a word tells the
number and whether the cursor is there (`showCell_eq_iff`), and the cells that are not shown are
zero (`get?_of_shownSize_le`). Only the number of cells cannot be read off the text, so that it is
among the tapes of one size that a tape is known by its text (`eq_of_render_eq`).
-/

namespace TapeTower.Tape

variable {t u : Tape} {index : Nat} {c : Char}

/-! ### Cells that are not shown -/

/-- What is dropped from the end of a list satisfies the condition for dropping it. -/
lemma getElem_of_length_dropWhile_le {α : Type} {p : α → Bool} {l : List α} {i : Nat}
    (hi : i < l.length) (h : (l.reverse.dropWhile p).length ≤ i) : p l[i] = true := by
  have hsplit : l = (l.reverse.dropWhile p).reverse ++ (l.reverse.takeWhile p).reverse := by
    rw [← List.reverse_append, List.takeWhile_append_dropWhile, List.reverse_reverse]
  have hget : l[i]? = (l.reverse.takeWhile p).reverse[i - (l.reverse.dropWhile p).length]? := by
    conv_lhs => rw [hsplit]
    rw [List.getElem?_append_right (by simpa using h), List.length_reverse]
  rw [List.getElem?_eq_getElem hi] at hget
  have hmem := List.mem_of_getElem? hget.symm
  exact List.mem_takeWhile_imp (List.mem_reverse.mp hmem)

/-- The cells that are not shown are zero. -/
theorem get?_of_shownSize_le (h : t.shownSize ≤ index) (hindex : index < t.size) :
    t.get? index = some 0 := by
  have hdropped : (t.cells.toList.reverse.dropWhile (· = 0)).length ≤ index :=
    Nat.le_trans (Nat.le_max_right _ _) h
  have hzero := getElem_of_length_dropWhile_le (by simpa [size] using hindex) hdropped
  rw [decide_eq_true_eq, Array.getElem_toList] at hzero
  exact (Array.getElem?_eq_getElem hindex).trans (congrArg some hzero)

lemma cursor_lt_shownSize (t : Tape) : t.cursor < t.shownSize :=
  Nat.le_max_left _ _

/-! ### The text of a cell -/

/-- A number is known by its digits. -/
lemma toDigits_inj {m n : Nat} : Nat.toDigits 10 m = Nat.toDigits 10 n ↔ m = n := by
  refine ⟨fun h => ?_, fun h => h ▸ rfl⟩
  have hvalue := congrArg (Nat.ofDigitChars 10 · 0) h
  simpa using hvalue

lemma not_mem_toDigits (hdigit : c.isDigit = false) (n : Nat) : c ∉ Nat.toDigits 10 n := by
  intro hc
  rw [Nat.isDigit_of_mem_toDigits (by decide) (by decide) hc] at hdigit
  cases hdigit

/-- A word consists of digits and stars. -/
lemma not_mem_showCell (hdigit : c.isDigit = false) (hstar : c ≠ '*') (v : UInt32) :
    c ∉ t.showCell index v := by
  have hdigits := not_mem_toDigits hdigit v.toNat
  unfold showCell
  dsimp only
  split
  · simp [hdigits, hstar]
  · exact hdigits

/-- A word tells the number in its cell and whether the cursor is on it. -/
theorem showCell_eq_iff {v w : UInt32} :
    t.showCell index v = u.showCell index w ↔ v = w ∧ (index = t.cursor ↔ index = u.cursor) := by
  have hstar : ∀ v : UInt32, ∀ text, Nat.toDigits 10 v.toNat ≠ '*' :: text := by
    intro v text h
    have hnot : '*' ∉ Nat.toDigits 10 v.toNat := not_mem_toDigits (by decide) v.toNat
    rw [h] at hnot
    exact hnot List.mem_cons_self
  unfold showCell
  dsimp only
  by_cases ht : index = t.cursor
  · by_cases hu : index = u.cursor
    · rw [if_pos ht, if_pos hu, List.append_left_inj, List.cons_inj_right, toDigits_inj,
        UInt32.toNat_inj]
      exact (and_iff_left (iff_of_true ht hu)).symm
    · rw [if_pos ht, if_neg hu]
      refine iff_of_false (fun h => hstar w _ h.symm) fun h => hu (h.2.mp ht)
  · by_cases hu : index = u.cursor
    · rw [if_neg ht, if_pos hu]
      refine iff_of_false (hstar v _) fun h => ht (h.2.mpr hu)
    · rw [if_neg ht, if_neg hu, toDigits_inj, UInt32.toNat_inj]
      exact (and_iff_left (iff_of_false ht hu)).symm

/-! ### The words of a text -/

/-- The words that are shown, one for each cell. -/
def words (t : Tape) : List (List Char) :=
  (t.cells.toList.take t.shownSize).mapIdx t.showCell

lemma not_mem_of_mem_words (hdigit : c.isDigit = false) (hstar : c ≠ '*') :
    ∀ word ∈ t.words, c ∉ word := by
  intro word hword
  obtain ⟨i, hi, rfl⟩ := List.mem_mapIdx.mp hword
  exact not_mem_showCell hdigit hstar _

lemma words_ne_nil (t : Tape) : t.words ≠ [] := by
  have hcells : t.cells.toList.length ≠ 0 := Nat.ne_of_gt t.size_pos
  have hshown := t.cursor_lt_shownSize
  rw [words, Ne, List.mapIdx_eq_nil_iff, List.take_eq_nil_iff, ← List.length_eq_zero_iff]
  omega

/-- Cut at its blanks, the text of a tape gives back its words. -/
theorem splitOn_render (t : Tape) : t.render.splitOn ' ' = t.words :=
  List.splitOn_intercalate ' ' (not_mem_of_mem_words (by decide) (by decide)) t.words_ne_nil

lemma getElem?_words (t : Tape) (index : Nat) :
    t.words[index]? =
      if index < t.shownSize then (t.get? index).map (t.showCell index) else none := by
  rw [words, List.getElem?_mapIdx, List.getElem?_take]
  split
  · rw [Array.getElem?_toList]
    rfl
  · rfl

/-- The text of a tape is one line. -/
lemma lineFeed_not_mem_render (t : Tape) : '\n' ∉ t.render := by
  have hwords : ∀ word ∈ t.words, '\n' ∉ word := not_mem_of_mem_words (by decide) (by decide)
  show '\n' ∉ [' '].intercalate t.words
  generalize t.words = words at hwords
  induction words with
  | nil => simp
  | cons word words ih =>
    obtain ⟨hword, hwords⟩ := List.forall_mem_cons.mp hwords
    cases words with
    | nil => simpa using hword
    | cons next words => simp [hword, ih hwords]

/-! ### The tape of a text -/

/-- Tapes with the same text show the same number in each cell, and the cursor on the same one. -/
lemma exists_of_render_eq (h : t.render = u.render) {v : UInt32} (hshown : index < t.shownSize)
    (hget : t.get? index = some v) :
    index < u.shownSize ∧ u.get? index = some v ∧ (index = t.cursor ↔ index = u.cursor) := by
  have hwords : t.words = u.words := by rw [← splitOn_render, ← splitOn_render, h]
  have hword := t.getElem?_words index
  rw [hwords, getElem?_words, if_pos hshown, hget, Option.map_some] at hword
  split at hword
  · next hlt =>
    obtain ⟨w, hw, hsame⟩ := Option.map_eq_some_iff.mp hword
    obtain ⟨rfl, hcursor⟩ := showCell_eq_iff.mp hsame
    exact ⟨hlt, hw, hcursor.symm⟩
  · cases hword

/-- Among the tapes of one size, a tape is known by its text. -/
theorem eq_of_render_eq (hsize : t.size = u.size) (h : t.render = u.render) : t = u := by
  refine ext_get? ?_ fun index => ?_
  · obtain ⟨-, -, hcursor⟩ := exists_of_render_eq h t.cursor_lt_shownSize t.get?_cursor
    exact hcursor.mp rfl
  · by_cases hindex : index < t.size
    · obtain ⟨v, hv⟩ := t.exists_get?_eq_some hindex
      by_cases ht : index < t.shownSize
      · rw [hv, (exists_of_render_eq h ht hv).2.1]
      · obtain ⟨w, hw⟩ := u.exists_get?_eq_some (hsize ▸ hindex)
        have hu : ¬ index < u.shownSize := fun hu => ht (exists_of_render_eq h.symm hu hw).1
        rw [get?_of_shownSize_le (Nat.le_of_not_lt ht) hindex,
          get?_of_shownSize_le (Nat.le_of_not_lt hu) (hsize ▸ hindex)]
    · have ht : t.get? index = none := Array.getElem?_eq_none (Nat.le_of_not_lt hindex)
      rw [hsize] at hindex
      have hu : u.get? index = none := Array.getElem?_eq_none (Nat.le_of_not_lt hindex)
      rw [ht, hu]

end TapeTower.Tape
