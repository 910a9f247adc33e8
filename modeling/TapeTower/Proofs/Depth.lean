import Mathlib.Algebra.Ring.Int.Defs
import TapeTower.Proofs.Balance

/-!
# The depth of a text

A delimiter that opens takes a text one level up, and one that closes takes it one level down.
The net depth of a text is the sum of these (`netDepth_eq_sum`). A text is covered if no closing
delimiter leads below the level that it starts at (`Covered`).

The balance check is decided by these two alone: it reports nothing on a covered text that ends
where it starts (`firstUnmatched_eq_none_iff_covered`), and an opening delimiter on a covered
text that ends higher (`exists_firstUnmatched_opening_iff`). A covered text is one that a balanced
text can begin with: the levels left open are closed behind it (`covered_iff_exists_balanced`). A
walk that looks for the end of a level finds none exactly if what it walks over is covered
(`leaveLevel_eq_none_iff`).

None of this depends on the symbols that are no delimiters (`skeleton`).
-/

namespace TapeTower

variable {α : Type} [DecidableEq α]

namespace Delimiters

variable {d : Delimiters α}

/-! ### Levels -/

variable (d) in
/-- The number of levels by which a symbol leads up. -/
def rise (x : α) : Int :=
  if x = d.opening then 1 else if x = d.closing then -1 else 0

@[simp] lemma rise_opening : d.rise d.opening = 1 := by
  simp [rise]

lemma rise_closing (hd : d.opening ≠ d.closing) : d.rise d.closing = -1 := by
  simp [rise, hd.symm]

lemma rise_symbol {x : α} (hopen : x ≠ d.opening) (hclose : x ≠ d.closing) : d.rise x = 0 := by
  simp [rise, hopen, hclose]

lemma rise_eq_zero {x : α} (h : ¬ (x = d.opening ∨ x = d.closing)) : d.rise x = 0 := by
  obtain ⟨hopen, hclose⟩ := not_or.mp h
  exact rise_symbol hopen hclose

/-- A symbol leads down by one level at most. -/
lemma neg_one_le_rise (x : α) : -1 ≤ d.rise x := by
  unfold rise
  split
  · decide
  · split <;> decide

lemma rise_swap (hd : d.opening ≠ d.closing) (x : α) : d.swap.rise x = -d.rise x := by
  by_cases hopen : x = d.opening
  · subst hopen
    rw [rise_opening]
    exact rise_closing (d := d.swap) hd.symm
  · by_cases hclose : x = d.closing
    · subst hclose
      rw [rise_closing hd]
      exact rise_opening (d := d.swap)
    · rw [rise_symbol hopen hclose]
      exact rise_symbol (d := d.swap) hclose hopen

/-- The net depth is the sum of all rises. -/
theorem netDepth_eq_sum (text : List α) : d.netDepth text = (text.map d.rise).sum := by
  have hfold : ∀ depth : Int,
      text.foldl (fun depth x =>
        if x = d.opening then depth + 1 else if x = d.closing then depth - 1 else depth) depth =
      depth + (text.map d.rise).sum := by
    induction text with
    | nil => simp
    | cons x text ih =>
      intro depth
      rw [List.foldl_cons, ih, List.map_cons, List.sum_cons, rise]
      split
      · omega
      · split <;> omega
  rw [netDepth, hfold, Int.zero_add]

@[simp] lemma netDepth_nil : d.netDepth [] = 0 := rfl

lemma netDepth_cons (x : α) (text : List α) :
    d.netDepth (x :: text) = d.rise x + d.netDepth text := by
  simp [netDepth_eq_sum]

lemma netDepth_append (s t : List α) : d.netDepth (s ++ t) = d.netDepth s + d.netDepth t := by
  simp [netDepth_eq_sum]

lemma netDepth_replicate (n : Nat) (x : α) :
    d.netDepth (List.replicate n x) = n * d.rise x := by
  simp [netDepth_eq_sum]

lemma allMatched_iff {text : List α} : d.allMatched text = true ↔ d.netDepth text = 0 := by
  simp [allMatched]

/-! ### Covered texts -/

variable (d) in
/-- From `depth` levels up, no closing delimiter of the text leads below level zero. -/
def Covered : (depth : Int) → List α → Prop
  | depth, [] => 0 ≤ depth
  | depth, x :: text => 0 ≤ depth ∧ Covered (depth + d.rise x) text

@[simp] lemma covered_nil {depth : Int} : d.Covered depth [] ↔ 0 ≤ depth := Iff.rfl

lemma covered_cons {depth : Int} {x : α} {text : List α} :
    d.Covered depth (x :: text) ↔ 0 ≤ depth ∧ d.Covered (depth + d.rise x) text := Iff.rfl

lemma Covered.nonneg {depth : Int} {text : List α} (h : d.Covered depth text) : 0 ≤ depth := by
  cases text with
  | nil => exact h
  | cons x text => exact h.1

lemma covered_append {depth : Int} {s t : List α} :
    d.Covered depth (s ++ t) ↔ d.Covered depth s ∧ d.Covered (depth + d.netDepth s) t := by
  induction s generalizing depth with
  | nil =>
    simp only [List.nil_append, covered_nil, netDepth_nil, Int.add_zero]
    exact ⟨fun h => ⟨h.nonneg, h⟩, fun h => h.2⟩
  | cons x s ih =>
    rw [List.cons_append, covered_cons, covered_cons, ih, netDepth_cons, Int.add_assoc, and_assoc]

lemma Covered.mono {depth depth' : Int} {text : List α} (h : d.Covered depth text)
    (hdepth : depth ≤ depth') : d.Covered depth' text := by
  induction text generalizing depth depth' with
  | nil => exact Int.le_trans h.nonneg hdepth
  | cons x text ih =>
    obtain ⟨hnonneg, htext⟩ := covered_cons.mp h
    exact covered_cons.mpr ⟨Int.le_trans hnonneg hdepth, ih htext (by omega)⟩

/-- A covered text ends at level zero or above. -/
lemma Covered.netDepth_nonneg {depth : Int} {text : List α} (h : d.Covered depth text) :
    0 ≤ depth + d.netDepth text := by
  rw [← List.append_nil text, covered_append] at h
  exact h.2.nonneg

/-- A text is covered if every part that it starts with ends at level zero or above. -/
theorem covered_iff_forall_prefix {depth : Int} {text : List α} :
    d.Covered depth text ↔ ∀ s t, text = s ++ t → 0 ≤ depth + d.netDepth s := by
  constructor
  · rintro h s t rfl
    exact (covered_append.mp h).2.nonneg
  · intro h
    induction text generalizing depth with
    | nil => simpa using h [] [] rfl
    | cons x text ih =>
      refine covered_cons.mpr ⟨by simpa using h [] _ rfl, ih ?_⟩
      rintro s t rfl
      have hprefix := h (x :: s) t rfl
      rwa [netDepth_cons, ← Int.add_assoc] at hprefix

/-- Reading a symbol off the front of a text changes the level that the rest starts at. -/
lemma covered_cons_iff {depth depth' : Int} {x : α} (hdepth : 0 ≤ depth)
    (hrise : depth + d.rise x = depth') (text : List α) :
    (d.Covered depth (x :: text) ↔ d.Covered depth' text) ∧
      depth + d.netDepth (x :: text) = depth' + d.netDepth text := by
  subst hrise
  refine ⟨by simp [covered_cons, hdepth], ?_⟩
  rw [netDepth_cons, Int.add_assoc]

/-! ### The balance check -/

/-- What the check reports depends on how many openings wait, not on which. -/
lemma firstUnmatchedFrom_iff {index : Nat} {waiting : List Nat} {text : List α} :
    (d.firstUnmatchedFrom index waiting text = none ↔
        d.Covered waiting.length text ∧ waiting.length + d.netDepth text = 0) ∧
      ((∃ i, d.firstUnmatchedFrom index waiting text = some (.opening, i)) ↔
        d.Covered waiting.length text ∧ 0 < waiting.length + d.netDepth text) := by
  have hwaiting : ∀ waiting : List Nat, 0 ≤ (waiting.length : Int) :=
    fun waiting => Int.natCast_nonneg waiting.length
  fun_induction firstUnmatchedFrom d index waiting text with
  | case1 _ waiting =>
    rcases List.eq_nil_or_concat waiting with rfl | ⟨waiting, first, rfl⟩
    · simp
    · simp
      omega
  | case2 _ waiting text ih =>
    have hrise : (waiting.length : Int) + d.rise d.opening = (waiting.length + 1 : Nat) := by simp
    obtain ⟨hcovered, hsum⟩ := covered_cons_iff (hwaiting waiting) hrise text
    rw [hcovered, hsum]
    exact ih
  | case3 _ text hopen =>
    have hbelow : ¬ d.Covered 0 (d.closing :: text) := by
      rw [covered_cons, rise_closing (Ne.symm hopen)]
      exact fun h => absurd h.2.nonneg (by decide)
    simp [hbelow]
  | case4 _ text first waiting hopen ih =>
    have hrise : ((first :: waiting).length : Int) + d.rise d.closing = waiting.length := by
      rw [rise_closing (Ne.symm hopen), List.length_cons]
      omega
    obtain ⟨hcovered, hsum⟩ := covered_cons_iff (hwaiting (first :: waiting)) hrise text
    rw [hcovered, hsum]
    exact ih
  | case5 _ waiting x text hopen hclose ih =>
    have hrise : (waiting.length : Int) + d.rise x = waiting.length := by
      simp [rise_symbol hopen hclose]
    obtain ⟨hcovered, hsum⟩ := covered_cons_iff (hwaiting waiting) hrise text
    rw [hcovered, hsum]
    exact ih

/-- The check reports nothing on a covered text that ends where it starts. -/
theorem firstUnmatched_eq_none_iff_covered {text : List α} :
    d.firstUnmatched text = none ↔ d.Covered 0 text ∧ d.netDepth text = 0 := by
  have hcheck : d.firstUnmatchedFrom 0 [] text = none ↔ _ := firstUnmatchedFrom_iff.1
  simpa [firstUnmatched] using hcheck

/-- The check reports an opening delimiter on a covered text that ends higher. -/
theorem exists_firstUnmatched_opening_iff {text : List α} :
    (∃ i, d.firstUnmatched text = some (.opening, i)) ↔ d.Covered 0 text ∧ 0 < d.netDepth text := by
  have hcheck : (∃ i, d.firstUnmatchedFrom 0 [] text = some (.opening, i)) ↔ _ :=
    firstUnmatchedFrom_iff.2
  simpa [firstUnmatched] using hcheck

/-- A text is balanced if it is covered and ends where it starts. -/
theorem balanced_iff_covered (hd : d.opening ≠ d.closing) {text : List α} :
    d.Balanced text ↔ d.Covered 0 text ∧ d.netDepth text = 0 := by
  rw [← firstUnmatched_eq_none_iff hd, firstUnmatched_eq_none_iff_covered]

/-- A balanced text ends where it starts. -/
lemma Balanced.netDepth_eq_zero (hd : d.opening ≠ d.closing) {text : List α}
    (h : d.Balanced text) : d.netDepth text = 0 :=
  ((balanced_iff_covered hd).mp h).2

/-- As many levels as a text is deep can be closed behind it. -/
lemma covered_replicate_closing (hd : d.opening ≠ d.closing) {depth : Int} {n : Nat}
    (h : n ≤ depth) : d.Covered depth (List.replicate n d.closing) := by
  induction n generalizing depth with
  | zero => exact h
  | succ n ih =>
    rw [List.replicate_succ, covered_cons, rise_closing hd]
    exact ⟨by omega, ih (by omega)⟩

/-- Closing all levels that are left open makes a covered text balanced. -/
lemma Covered.balanced_append (hd : d.opening ≠ d.closing) {text : List α}
    (h : d.Covered 0 text) :
    d.Balanced (text ++ List.replicate (d.netDepth text).toNat d.closing) := by
  have hdepth : ((d.netDepth text).toNat : Int) = d.netDepth text :=
    Int.toNat_of_nonneg (by simpa using h.netDepth_nonneg)
  rw [balanced_iff_covered hd, covered_append, netDepth_append, netDepth_replicate,
    rise_closing hd]
  exact ⟨⟨h, covered_replicate_closing hd (by omega)⟩, by omega⟩

/-- A text is covered if a balanced text can begin with it. -/
theorem covered_iff_exists_balanced (hd : d.opening ≠ d.closing) {text : List α} :
    d.Covered 0 text ↔ ∃ rest, d.Balanced (text ++ rest) := by
  constructor
  · intro h
    exact ⟨_, h.balanced_append hd⟩
  · rintro ⟨rest, h⟩
    exact (covered_append.mp ((balanced_iff_covered hd).mp h).1).1

variable (d) in
/-- The delimiters of a text, without the symbols between them. -/
def skeleton (text : List α) : List α := text.filter fun x => x = d.opening ∨ x = d.closing

lemma skeleton_append (s t : List α) : d.skeleton (s ++ t) = d.skeleton s ++ d.skeleton t :=
  List.filter_append s t

lemma skeleton_reverse (text : List α) : d.skeleton text.reverse = (d.skeleton text).reverse :=
  List.filter_reverse

lemma skeleton_eq_nil {text : List α} (h : ∀ x ∈ text, x ≠ d.opening ∧ x ≠ d.closing) :
    d.skeleton text = [] := by
  rw [skeleton, List.filter_eq_nil_iff]
  intro x hx
  simpa using h x hx

lemma skeleton_cons_symbol {x : α} (hopen : x ≠ d.opening) (hclose : x ≠ d.closing)
    (text : List α) : d.skeleton (x :: text) = d.skeleton text := by
  simp [skeleton, hopen, hclose]

/-- Dropping symbols that are no delimiters keeps the delimiters. -/
lemma skeleton_dropWhile {p : α → Bool} (hopen : p d.opening = false)
    (hclose : p d.closing = false) (text : List α) :
    d.skeleton (text.dropWhile p) = d.skeleton text := by
  induction text with
  | nil => rfl
  | cons x text ih =>
    rw [List.dropWhile_cons]
    split
    · next hx =>
      have hne : x ≠ d.opening ∧ x ≠ d.closing := by
        constructor
        · rintro rfl
          simp [hopen] at hx
        · rintro rfl
          simp [hclose] at hx
      rw [ih, skeleton_cons_symbol hne.1 hne.2]
    · rfl

lemma skeleton_cons_delimiter {x : α} (hx : x = d.opening ∨ x = d.closing) (text : List α) :
    d.skeleton (x :: text) = x :: d.skeleton text := by
  simp [skeleton, hx]

/-- Replacing symbols that are no delimiters by others that are none keeps the delimiters. -/
lemma skeleton_map {f : α → α} (hf : ∀ x, f x = x ∨
      ¬ (x = d.opening ∨ x = d.closing) ∧ ¬ (f x = d.opening ∨ f x = d.closing))
    (text : List α) : d.skeleton (text.map f) = d.skeleton text := by
  induction text with
  | nil => rfl
  | cons x text ih =>
    rcases hf x with hx | ⟨hx, hfx⟩
    · by_cases hdelimiter : x = d.opening ∨ x = d.closing
      · rw [List.map_cons, hx, skeleton_cons_delimiter hdelimiter, ih,
          skeleton_cons_delimiter hdelimiter]
      · obtain ⟨hopen, hclose⟩ := not_or.mp hdelimiter
        rw [List.map_cons, hx, skeleton_cons_symbol hopen hclose, ih,
          skeleton_cons_symbol hopen hclose]
    · obtain ⟨hopen, hclose⟩ := not_or.mp hx
      obtain ⟨hfopen, hfclose⟩ := not_or.mp hfx
      rw [List.map_cons, skeleton_cons_symbol hfopen hfclose, ih,
        skeleton_cons_symbol hopen hclose]

lemma netDepth_skeleton (text : List α) : d.netDepth (d.skeleton text) = d.netDepth text := by
  induction text with
  | nil => rfl
  | cons x text ih =>
    rw [netDepth_cons, ← ih, skeleton, List.filter_cons]
    split
    · exact netDepth_cons x _
    · next hx =>
      have hrise : d.rise x = 0 := rise_eq_zero (by simpa using hx)
      rw [hrise, Int.zero_add, skeleton]

lemma covered_skeleton (text : List α) {depth : Int} :
    d.Covered depth (d.skeleton text) ↔ d.Covered depth text := by
  induction text generalizing depth with
  | nil => rfl
  | cons x text ih =>
    rw [skeleton, List.filter_cons]
    split
    · rw [covered_cons, covered_cons, ← ih, skeleton]
    · next hx =>
      have hrise : d.rise x = 0 := rise_eq_zero (by simpa using hx)
      rw [covered_cons, hrise, Int.add_zero, ← ih, skeleton]
      exact ⟨fun h => ⟨h.nonneg, h⟩, fun h => h.2⟩

variable (d) in
/-- The number of delimiters in front of a symbol of a text. -/
def ordinal (text : List α) (index : Nat) : Nat := (d.skeleton (text.take index)).length

lemma ordinal_append_cons (s t : List α) (x : α) :
    d.ordinal (s ++ x :: t) (s.length + 1) =
      d.ordinal (s ++ x :: t) s.length + (d.skeleton [x]).length := by
  have htext : s ++ x :: t = (s ++ [x]) ++ t := by simp
  have hlength : s.length + 1 = (s ++ [x]).length := by simp
  rw [ordinal, ordinal, List.take_left, htext, hlength, List.take_left, skeleton_append,
    List.length_append]

/-- A delimiter counts among those in front of all that stands behind it. -/
lemma ordinal_lt {text : List α} {x : α} {i j : Nat} (hi : text[i]? = some x)
    (hx : x = d.opening ∨ x = d.closing) (hij : i < j) : d.ordinal text i < d.ordinal text j := by
  obtain ⟨hlt, rfl⟩ := List.getElem?_eq_some_iff.mp hi
  have hdrop : text.drop i = text[i] :: text.drop (i + 1) := List.drop_eq_getElem_cons hlt
  have htake : text.take j = text.take i ++ text[i] :: (text.drop (i + 1)).take (j - i - 1) := by
    obtain ⟨k, rfl⟩ : ∃ k, j = i + (k + 1) := ⟨j - i - 1, by omega⟩
    rw [List.take_add, hdrop, List.take_succ_cons, show i + (k + 1) - i - 1 = k by omega]
  rw [ordinal, ordinal, htake, skeleton_append, skeleton_cons_delimiter hx, List.length_append,
    List.length_cons]
  omega

/-- A delimiter is known by the number of those in front of it. -/
lemma eq_of_ordinal_eq {text : List α} {x y : α} {i j : Nat} (hi : text[i]? = some x)
    (hj : text[j]? = some y) (hx : x = d.opening ∨ x = d.closing)
    (hy : y = d.opening ∨ y = d.closing) (h : d.ordinal text i = d.ordinal text j) : i = j := by
  rcases Nat.lt_trichotomy i j with hlt | rfl | hlt
  · have := ordinal_lt hi hx hlt
    omega
  · rfl
  · have := ordinal_lt hj hy hlt
    omega

/-- Reading only the delimiters of a text, the check meets the same ones. -/
lemma firstUnmatchedFrom_skeleton (hd : d.opening ≠ d.closing) {text s t : List α}
    (htext : text = s ++ t) (waiting : List Nat) :
    d.firstUnmatchedFrom (d.ordinal text s.length) (waiting.map (d.ordinal text)) (d.skeleton t) =
      (d.firstUnmatchedFrom s.length waiting t).map (Prod.map id (d.ordinal text)) := by
  induction t generalizing s waiting with
  | nil => simp [firstUnmatchedFrom, skeleton, Function.comp_def]
  | cons x t ih =>
    have hnext := ordinal_append_cons (d := d) s t x
    rw [← htext] at hnext
    have hrest := ih (s := s ++ [x]) (by simp [htext])
    rw [List.length_append, List.length_singleton, hnext] at hrest
    by_cases hopen : x = d.opening
    · subst hopen
      rw [skeleton_cons_delimiter (Or.inl rfl)] at hrest ⊢
      rw [firstUnmatchedFrom_opening, firstUnmatchedFrom_opening]
      exact hrest (s.length :: waiting)
    · by_cases hclose : x = d.closing
      · subst hclose
        rw [skeleton_cons_delimiter (Or.inr rfl)] at hrest ⊢
        cases waiting with
        | nil => simp [firstUnmatchedFrom_closing_nil hd]
        | cons first waiting =>
          rw [List.map_cons, firstUnmatchedFrom_closing hd, firstUnmatchedFrom_closing hd]
          exact hrest waiting
      · rw [skeleton_cons_symbol hopen hclose] at hrest ⊢
        rw [firstUnmatchedFrom_symbol hopen hclose]
        exact hrest waiting

/-- The first delimiter without a partner stays the first one when the delimiters stand alone. -/
theorem firstUnmatched_skeleton (hd : d.opening ≠ d.closing) (text : List α) :
    d.firstUnmatched (d.skeleton text) =
      (d.firstUnmatched text).map (Prod.map id (d.ordinal text)) :=
  firstUnmatchedFrom_skeleton hd (s := []) rfl []

section SameSkeleton

variable {s t : List α}

/-- Texts of the same delimiters are balanced or not alike. -/
lemma balanced_iff_of_skeleton_eq (hd : d.opening ≠ d.closing)
    (h : d.skeleton s = d.skeleton t) : d.Balanced s ↔ d.Balanced t := by
  rw [balanced_iff_covered hd, balanced_iff_covered hd, ← covered_skeleton s,
    ← covered_skeleton t, ← netDepth_skeleton s, ← netDepth_skeleton t, h]

/-- Texts of the same delimiters have an opening one left alike. -/
lemma exists_firstUnmatched_opening_iff_of_skeleton_eq (h : d.skeleton s = d.skeleton t) :
    (∃ i, d.firstUnmatched s = some (.opening, i)) ↔
      ∃ i, d.firstUnmatched t = some (.opening, i) := by
  rw [exists_firstUnmatched_opening_iff, exists_firstUnmatched_opening_iff,
    ← covered_skeleton s, ← covered_skeleton t, ← netDepth_skeleton s, ← netDepth_skeleton t, h]

/-- Texts of the same delimiters pass the balance check alike. -/
lemma firstUnmatched_eq_none_iff_of_skeleton_eq (h : d.skeleton s = d.skeleton t) :
    d.firstUnmatched s = none ↔ d.firstUnmatched t = none := by
  rw [firstUnmatched_eq_none_iff_covered, firstUnmatched_eq_none_iff_covered,
    ← covered_skeleton s, ← covered_skeleton t, ← netDepth_skeleton s, ← netDepth_skeleton t, h]

/-- In texts of the same delimiters the same one is the first without a partner. -/
lemma exists_firstUnmatched_of_skeleton_eq (hd : d.opening ≠ d.closing)
    (h : d.skeleton s = d.skeleton t) {side : Side} {i : Nat}
    (hs : d.firstUnmatched s = some (side, i)) :
    ∃ j, d.firstUnmatched t = some (side, j) ∧ d.ordinal t j = d.ordinal s i := by
  have hsame : (d.firstUnmatched t).map (Prod.map id (d.ordinal t)) =
      some (side, d.ordinal s i) := by
    rw [← firstUnmatched_skeleton hd, ← h, firstUnmatched_skeleton hd, hs]
    rfl
  obtain ⟨⟨side', j⟩, ht, hpair⟩ := Option.map_eq_some_iff.mp hsame
  obtain ⟨rfl, hordinal⟩ := Prod.mk.inj hpair
  exact ⟨j, ht, hordinal⟩

end SameSkeleton

end Delimiters

open Delimiters

variable {d : Delimiters α}

/-! ### Walks that leave a level -/

/-- A walk that finds no end of its level has walked over a covered text. -/
lemma leaveLevel_eq_none_iff {depth : Nat} {passed ahead : List α} :
    leaveLevel d.opening d.closing depth passed ahead = none ↔ d.Covered depth ahead := by
  fun_induction leaveLevel d.opening d.closing depth passed ahead with
  | case1 depth => simp
  | case2 depth passed ahead ih =>
    have hrise : (depth : Int) + d.rise d.opening = (depth + 1 : Nat) := by simp
    rw [ih, (covered_cons_iff (Int.natCast_nonneg depth) hrise ahead).1]
  | case3 passed ahead hopen =>
    rw [covered_cons, rise_closing (Ne.symm hopen)]
    refine ⟨fun h => (by cases h), fun h => absurd h.2.nonneg (by decide)⟩
  | case4 passed ahead depth hopen ih =>
    have hrise : ((depth + 1 : Nat) : Int) + d.rise d.closing = depth := by
      rw [rise_closing (Ne.symm hopen)]
      omega
    rw [ih, (covered_cons_iff (Int.natCast_nonneg (depth + 1)) hrise ahead).1]
  | case5 depth passed x ahead hopen hclose ih =>
    have hrise : (depth : Int) + d.rise x = depth := by simp [rise_symbol hopen hclose]
    rw [ih, (covered_cons_iff (Int.natCast_nonneg depth) hrise ahead).1]

/-- A walk that leaves its level has walked over a text that closes the levels entered before
it. -/
lemma exists_covered_of_leaveLevel {depth : Nat} {passed ahead passed' rest : List α}
    (h : leaveLevel d.opening d.closing depth passed ahead = some (passed', rest)) :
    ∃ inside, passed' = d.closing :: (inside.reverse ++ passed) ∧
      ahead = inside ++ d.closing :: rest ∧ d.Covered depth inside ∧
        depth + d.netDepth inside = 0 := by
  fun_induction leaveLevel d.opening d.closing depth passed ahead with
  | case1 => cases h
  | case2 depth passed ahead ih =>
    obtain ⟨inside, rfl, rfl, hcovered, hsum⟩ := ih h
    have hrise : (depth : Int) + d.rise d.opening = (depth + 1 : Nat) := by simp
    obtain ⟨hcovered', hsum'⟩ :=
      covered_cons_iff (Int.natCast_nonneg depth) hrise inside
    exact ⟨d.opening :: inside, by simp, rfl, hcovered'.mpr hcovered, hsum'.trans hsum⟩
  | case3 passed ahead hopen =>
    cases h
    exact ⟨[], rfl, rfl, by simp, by simp⟩
  | case4 passed ahead depth hopen ih =>
    obtain ⟨inside, rfl, rfl, hcovered, hsum⟩ := ih h
    have hrise : ((depth + 1 : Nat) : Int) + d.rise d.closing = depth := by
      rw [rise_closing (Ne.symm hopen)]
      omega
    obtain ⟨hcovered', hsum'⟩ :=
      covered_cons_iff (Int.natCast_nonneg (depth + 1)) hrise inside
    exact ⟨d.closing :: inside, by simp, rfl, hcovered'.mpr hcovered, hsum'.trans hsum⟩
  | case5 depth passed x ahead hopen hclose ih =>
    obtain ⟨inside, rfl, rfl, hcovered, hsum⟩ := ih h
    have hrise : (depth : Int) + d.rise x = depth := by simp [rise_symbol hopen hclose]
    obtain ⟨hcovered', hsum'⟩ :=
      covered_cons_iff (Int.natCast_nonneg depth) hrise inside
    exact ⟨x :: inside, by simp, rfl, hcovered'.mpr hcovered, hsum'.trans hsum⟩

/-- A walk that leaves the level it began in has walked over a balanced text. -/
lemma exists_balanced_of_leaveLevel (hd : d.opening ≠ d.closing)
    {passed ahead passed' rest : List α}
    (h : leaveLevel d.opening d.closing 0 passed ahead = some (passed', rest)) :
    ∃ inside, passed' = d.closing :: (inside.reverse ++ passed) ∧
      ahead = inside ++ d.closing :: rest ∧ d.Balanced inside := by
  obtain ⟨inside, hpassed, hahead, hcovered, hsum⟩ := exists_covered_of_leaveLevel h
  exact ⟨inside, hpassed, hahead, (balanced_iff_covered hd).mpr ⟨hcovered, by simpa using hsum⟩⟩

end TapeTower
