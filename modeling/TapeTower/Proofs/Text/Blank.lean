import Mathlib.Data.List.TakeWhile
import Mathlib.Tactic.Common
import TapeTower.Text.Blank

/-!
# Trimmed texts

Trimming takes away blanks at the two ends and nothing else: what is left has no blank at
its ends, and a text that has none is left as it is.
-/

namespace TapeTower.Text

variable {text : List Char} {c : Char}

/-- Trimming keeps a part of the text. -/
lemma trim_infix (text : List Char) : trim text <:+: text := by
  have hfront : text.dropWhile isBlank <:+: text := (List.dropWhile_suffix isBlank).isInfix
  have hback : (text.dropWhile isBlank).reverse.dropWhile isBlank <:+:
      (text.dropWhile isBlank).reverse := (List.dropWhile_suffix isBlank).isInfix
  have hreverse := List.reverse_infix.mpr hback
  rw [List.reverse_reverse] at hreverse
  exact hreverse.trans hfront

/-- What is trimmed at the end comes after the rest. -/
lemma trim_prefix (text : List Char) : trim text <+: text.dropWhile isBlank := by
  have hback := List.reverse_prefix.mpr
    (List.dropWhile_suffix (l := (text.dropWhile isBlank).reverse) isBlank)
  rwa [List.reverse_reverse] at hback

/-- A trimmed text does not start with a blank. -/
lemma isBlank_of_mem_head?_trim (h : c ∈ (trim text).head?) : isBlank c = false := by
  obtain ⟨back, hback⟩ := trim_prefix text
  obtain ⟨rest, hrest⟩ := List.head?_eq_some_iff.mp (Option.mem_def.mp h)
  rw [hrest, List.cons_append] at hback
  have hhead := List.head?_dropWhile_not isBlank text
  rw [← hback] at hhead
  simpa using hhead

/-- A trimmed text does not end with a blank. -/
lemma isBlank_of_mem_getLast?_trim (h : c ∈ (trim text).getLast?) : isBlank c = false := by
  rw [Option.mem_def, trim, List.getLast?_reverse] at h
  have hhead := List.head?_dropWhile_not isBlank (text.dropWhile isBlank).reverse
  rw [h] at hhead
  simpa using hhead

lemma dropWhile_isBlank_eq_self (h : ∀ c ∈ text.head?, isBlank c = false) :
    text.dropWhile isBlank = text := by
  cases text with
  | nil => rfl
  | cons c text =>
    have hc := h c rfl
    simp [hc]

/-- A text without blanks at its ends is left as it is. -/
lemma trim_eq_self (hfirst : ∀ c ∈ text.head?, isBlank c = false)
    (hlast : ∀ c ∈ text.getLast?, isBlank c = false) : trim text = text := by
  have hback : ∀ c ∈ text.reverse.head?, isBlank c = false := by
    rwa [List.head?_reverse]
  rw [trim, dropWhile_isBlank_eq_self hfirst, dropWhile_isBlank_eq_self hback,
    List.reverse_reverse]

/-- Replacing characters may come before trimming or after it, as long as blanks stay blanks and
other characters do not become any. -/
lemma trim_map {f : Char → Char} (hf : ∀ c, isBlank (f c) = isBlank c) (text : List Char) :
    trim (text.map f) = (trim text).map f := by
  have hcomp : isBlank ∘ f = isBlank := funext hf
  rw [trim, trim, List.dropWhile_map, hcomp, ← List.map_reverse, List.dropWhile_map, hcomp,
    ← List.map_reverse]

/-! ### Trimming in parts -/

variable {s t : List Char}

/-- Blanks in front of a text are trimmed. -/
lemma trim_blank_append (hs : ∀ c ∈ s, isBlank c = true) (t : List Char) :
    trim (s ++ t) = trim t := by
  rw [trim, List.dropWhile_append_of_pos hs, trim]

/-- Blanks behind a text are trimmed. -/
lemma trim_append_blank (s : List Char) (ht : ∀ c ∈ t, isBlank c = true) :
    trim (s ++ t) = trim s := by
  have hback : ∀ c ∈ t.reverse, isBlank c = true := fun c hc => ht c (List.mem_reverse.mp hc)
  rw [trim, trim, List.dropWhile_append]
  split
  · next hempty =>
    rw [List.isEmpty_iff.mp hempty, List.dropWhile_eq_nil_iff.mpr ht]
  · rw [List.reverse_append, List.dropWhile_append_of_pos hback]

/-- What stands between two texts that are not blank is not trimmed. -/
lemma trim_append_append (hs : ¬ ∀ c ∈ s, isBlank c = true) (ht : ¬ ∀ c ∈ t, isBlank c = true)
    (middle : List Char) :
    trim (s ++ (middle ++ t)) =
      s.dropWhile isBlank ++ (middle ++ (t.reverse.dropWhile isBlank).reverse) := by
  have hfront : ¬ (s.dropWhile isBlank).isEmpty = true := by
    rwa [List.isEmpty_iff, List.dropWhile_eq_nil_iff]
  have hback : ¬ (t.reverse.dropWhile isBlank).isEmpty = true := by
    simpa [List.isEmpty_iff, List.dropWhile_eq_nil_iff] using ht
  rw [trim, List.dropWhile_append, if_neg hfront, ← List.append_assoc, List.reverse_append,
    List.dropWhile_append, if_neg hback]
  simp

end TapeTower.Text
