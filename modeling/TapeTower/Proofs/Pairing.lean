import Mathlib.Order.Bounds.Basic
import TapeTower.Proofs.Depth
import TapeTower.Proofs.Text.Bytes

/-!
# The pairing of delimiters

An opening and a closing delimiter are partners if a balanced text stands between them
(`Partners`). A walk forward from the one finds the other, and a walk backward from the other finds
the one (`matchIndex_forward_eq_some_iff`, `matchIndex_backward_eq_some_iff`). So the two walks
describe the same pairing, and in a balanced text each of them finds a partner.

The pairing can also be told by counting. From an opening delimiter on, its partner is the first
place up to which as many delimiters close as open, and from a closing delimiter back it is the
first such place on the other side (`Partners.isLeast`, `Partners.isGreatest`). No place before
will do, since a balanced text nowhere falls below its level and, from its end, nowhere rises
above it.

A walk keeps nothing but a count of the levels that are open (`counts`). It ends as soon as this
count is zero (`leaveLevel_eq_cutAtZero`), and the count is never less (`nonneg_of_mem_counts`).
-/

namespace TapeTower.Delimiters

variable {α : Type} {d : Delimiters α}

/-! ### Partners -/

variable (d) in
/-- The delimiters at the two indices have a balanced text between them. -/
inductive Partners : (text : List α) → (i j : Nat) → Prop
  | intro {s inside rest : List α} (hinside : d.Balanced inside) :
      Partners (s ++ d.opening :: (inside ++ d.closing :: rest)) s.length
        (s.length + 1 + inside.length)

variable {text : List α} {i j k : Nat}

/-- A text is cut in two at a symbol of it. -/
lemma exists_append_of_getElem? {x : α} (h : text[i]? = some x) :
    ∃ s t, text = s ++ x :: t ∧ s.length = i := by
  obtain ⟨hi, rfl⟩ := List.getElem?_eq_some_iff.mp h
  refine ⟨text.take i, text.drop (i + 1), ?_, List.length_take_of_le hi.le⟩
  rw [← List.drop_eq_getElem_cons hi, List.take_append_drop]

namespace Partners

/-- What follows an opening delimiter that has a partner. -/
lemma exists_drop (h : d.Partners text i j) :
    ∃ inside rest, d.Balanced inside ∧ text.drop (i + 1) = inside ++ d.closing :: rest ∧
      j = i + 1 + inside.length := by
  obtain @⟨s, inside, rest, hinside⟩ := h
  refine ⟨inside, rest, hinside, ?_, rfl⟩
  rw [← List.drop_drop, List.drop_left]
  rfl

/-- What stands before a closing delimiter that has a partner. -/
lemma exists_take (h : d.Partners text i j) :
    ∃ inside, d.Balanced inside ∧ (text.take j).drop i = d.opening :: inside ∧
      j = i + 1 + inside.length := by
  obtain @⟨s, inside, rest, hinside⟩ := h
  refine ⟨inside, hinside, ?_, rfl⟩
  have hlength : s.length + 1 + inside.length - s.length = (d.opening :: inside).length := by
    rw [List.length_cons]
    omega
  rw [List.drop_take, List.drop_left, hlength, ← List.cons_append, List.take_left]

lemma getElem?_opening (h : d.Partners text i j) : text[i]? = some d.opening := by
  cases h
  simp

lemma getElem?_closing (h : d.Partners text i j) : text[j]? = some d.closing := by
  obtain ⟨inside, rest, -, hdrop, rfl⟩ := h.exists_drop
  rw [← List.getElem?_drop, hdrop]
  simp

lemma lt_length (h : d.Partners text i j) : j < text.length :=
  (List.getElem?_eq_some_iff.mp h.getElem?_closing).1

/-- What comes behind a text leaves its partners as they are. -/
lemma append_right (h : d.Partners text i j) (t : List α) : d.Partners (text ++ t) i j := by
  obtain ⟨hinside⟩ := h
  rw [List.append_assoc, List.cons_append, List.append_assoc, List.cons_append]
  exact .intro hinside

/-- Read backward, a closing delimiter has a balanced text in front of its partner. -/
lemma of_reverse {s behind inside ahead : List α} (hinside : d.swap.Balanced inside)
    (hs : s.reverse = inside ++ d.opening :: behind) :
    d.Partners (s ++ d.closing :: ahead) behind.length s.length := by
  obtain rfl : s = behind.reverse ++ d.opening :: inside.reverse := by
    rw [← List.reverse_reverse s, hs]
    simp
  have hpartners : d.Partners
      (behind.reverse ++ d.opening :: (inside.reverse ++ d.closing :: ahead))
      behind.reverse.length (behind.reverse.length + 1 + inside.reverse.length) :=
    .intro hinside.reverse
  simpa [Nat.add_assoc, Nat.add_comm 1] using hpartners

end Partners

section Balanced

variable (hd : d.opening ≠ d.closing)

include hd

/-- In a balanced text every opening delimiter has a partner. -/
lemma Balanced.exists_partners_of_opening (h : d.Balanced text) (hi : text[i]? = some d.opening) :
    ∃ j, d.Partners text i j := by
  obtain ⟨s, t, rfl, rfl⟩ := exists_append_of_getElem? hi
  obtain ⟨inside, rest, hinside, rfl⟩ := h.exists_of_append_opening hd
  exact ⟨_, .intro hinside⟩

/-- In a balanced text every closing delimiter has a partner. -/
lemma Balanced.exists_partners_of_closing (h : d.Balanced text) (hj : text[j]? = some d.closing) :
    ∃ i, d.Partners text i j := by
  obtain ⟨s, t, rfl, rfl⟩ := exists_append_of_getElem? hj
  have hreverse : d.swap.Balanced (t.reverse ++ d.swap.opening :: s.reverse) := by
    simpa [swap] using h.reverse
  obtain ⟨inside, rest, hinside, hs⟩ := hreverse.exists_of_append_opening hd.symm
  exact ⟨_, .of_reverse hinside hs⟩

end Balanced

/-! ### Walks from a delimiter -/

section Walk

variable [DecidableEq α]

/-- A walk forward ends at the last symbol that it has passed. -/
lemma matchIndex_forward_eq_map (h : i < text.length) :
    d.matchIndex text i .forward =
      (leaveLevel d.opening d.closing 0 (text[i] :: (text.take i).reverse)
        (text.drop (i + 1))).map fun walk => walk.1.length - 1 := by
  rw [matchIndex, Place.atIndex, List.drop_eq_getElem_cons h, Place.afterPartner, Option.map_map]
  rfl

/-- A walk backward ends in front of the last symbol that it has passed. -/
lemma matchIndex_backward_eq_map :
    d.matchIndex text i .backward =
      (leaveLevel d.closing d.opening 0 (text.drop i) (text.take i).reverse).map fun walk =>
        walk.2.length := by
  rw [matchIndex, Place.atIndex, Place.afterPartner]
  dsimp only
  cases hwalk : leaveLevel d.closing d.opening 0 (text.drop i) (text.take i).reverse with
  | none => rfl
  | some walk =>
    obtain ⟨passed, rest⟩ := walk
    obtain ⟨inside, rfl, -⟩ := leaveLevel_eq_some hwalk
    rfl

/-- A walk forward finds no partner if what lies ahead never leaves the level. -/
lemma matchIndex_forward_eq_none_iff (h : i < text.length) :
    d.matchIndex text i .forward = none ↔ d.Covered 0 (text.drop (i + 1)) := by
  rw [matchIndex_forward_eq_map h, Option.map_eq_none_iff]
  exact leaveLevel_eq_none_iff

/-- A walk backward finds no partner if what lies behind, read backward, never leaves the level. -/
lemma matchIndex_backward_eq_none_iff :
    d.matchIndex text i .backward = none ↔ d.swap.Covered 0 (text.take i).reverse := by
  rw [matchIndex_backward_eq_map, Option.map_eq_none_iff]
  exact leaveLevel_eq_none_iff (d := d.swap)

variable (hd : d.opening ≠ d.closing)

include hd

lemma Partners.matchIndex_forward (h : d.Partners text i j) :
    d.matchIndex text i .forward = some j := by
  obtain @⟨s, inside, rest, hinside⟩ := h
  rw [matchIndex, Place.atIndex, List.take_left, List.drop_left,
    Place.afterPartner_forward hd hinside, Option.map_some]
  simp
  omega

lemma Partners.matchIndex_backward (h : d.Partners text i j) :
    d.matchIndex text j .backward = some i := by
  obtain @⟨s, inside, rest, hinside⟩ := h
  have htext : s ++ d.opening :: (inside ++ d.closing :: rest) =
      (s ++ d.opening :: inside) ++ d.closing :: rest := by simp
  have hlength : s.length + 1 + inside.length = (s ++ d.opening :: inside).length := by
    simp
    omega
  have hbehind : (s ++ d.opening :: inside).reverse = inside.reverse ++ d.opening :: s.reverse := by
    simp
  rw [matchIndex, Place.atIndex, htext, hlength, List.take_left, List.drop_left, hbehind,
    Place.afterPartner_backward hd hinside, Option.map_some]
  simp

/-- From an opening delimiter a walk forward finds its partner. -/
theorem matchIndex_forward_eq_some_iff (hi : text[i]? = some d.opening) :
    d.matchIndex text i .forward = some j ↔ d.Partners text i j := by
  refine ⟨fun h => ?_, Partners.matchIndex_forward hd⟩
  obtain ⟨s, t, rfl, rfl⟩ := exists_append_of_getElem? hi
  rw [matchIndex, Place.atIndex, List.take_left, List.drop_left] at h
  obtain ⟨place, hpartner, rfl⟩ := Option.map_eq_some_iff.mp h
  obtain ⟨⟨passed, rest⟩, hwalk, rfl⟩ := Option.map_eq_some_iff.mp hpartner
  obtain ⟨inside, rfl, rfl, hinside⟩ := exists_balanced_of_leaveLevel hd hwalk
  have hlength : (d.closing :: (inside.reverse ++ d.opening :: s.reverse)).length - 1 =
      s.length + 1 + inside.length := by
    simp
    omega
  rw [hlength]
  exact .intro hinside

/-- From a closing delimiter a walk backward finds its partner. -/
theorem matchIndex_backward_eq_some_iff (hj : text[j]? = some d.closing) :
    d.matchIndex text j .backward = some i ↔ d.Partners text i j := by
  refine ⟨fun h => ?_, Partners.matchIndex_backward hd⟩
  obtain ⟨s, t, rfl, rfl⟩ := exists_append_of_getElem? hj
  rw [matchIndex_backward_eq_map, List.take_left] at h
  obtain ⟨⟨passed, behind⟩, hwalk, rfl⟩ := Option.map_eq_some_iff.mp h
  obtain ⟨inside, -, hs, hinside⟩ := exists_balanced_of_leaveLevel (d := d.swap) hd.symm hwalk
  exact .of_reverse hinside hs

/-- In a balanced text a walk forward from an opening delimiter finds a partner. -/
lemma Balanced.exists_matchIndex_forward (h : d.Balanced text) (hi : text[i]? = some d.opening) :
    ∃ j, d.matchIndex text i .forward = some j := by
  obtain ⟨j, hpartners⟩ := h.exists_partners_of_opening hd hi
  exact ⟨j, hpartners.matchIndex_forward hd⟩

/-- In a balanced text a walk backward from a closing delimiter finds a partner. -/
lemma Balanced.exists_matchIndex_backward (h : d.Balanced text) (hj : text[j]? = some d.closing) :
    ∃ i, d.matchIndex text j .backward = some i := by
  obtain ⟨i, hpartners⟩ := h.exists_partners_of_closing hd hj
  exact ⟨i, hpartners.matchIndex_backward hd⟩

lemma and_forward_iff_partners :
    text[i]? = some d.opening ∧ d.matchIndex text i .forward = some j ↔ d.Partners text i j :=
  ⟨fun h => (matchIndex_forward_eq_some_iff hd h.1).mp h.2,
    fun h => ⟨h.getElem?_opening, h.matchIndex_forward hd⟩⟩

lemma and_backward_iff_partners :
    text[j]? = some d.closing ∧ d.matchIndex text j .backward = some i ↔ d.Partners text i j :=
  ⟨fun h => (matchIndex_backward_eq_some_iff hd h.1).mp h.2,
    fun h => ⟨h.getElem?_closing, h.matchIndex_backward hd⟩⟩

end Walk

/-! ### Telling partners by counting -/

section EvenBetween

variable [DecidableEq α]

variable (d) in
/-- Of the symbols from one index to another, both included, as many are opening as closing
delimiters. -/
def EvenBetween (text : List α) (i j : Nat) : Prop :=
  ((text.take (j + 1)).drop i).count d.opening = ((text.take (j + 1)).drop i).count d.closing

variable (hd : d.opening ≠ d.closing)

include hd

/-- The net depth is the number of opening delimiters less that of closing ones. -/
lemma netDepth_eq_count_sub (text : List α) :
    d.netDepth text = text.count d.opening - text.count d.closing := by
  induction text with
  | nil => rfl
  | cons x text ih =>
    rw [netDepth_cons, ih]
    by_cases hopen : x = d.opening
    · subst hopen
      rw [rise_opening, List.count_cons_self, List.count_cons_of_ne hd]
      omega
    · by_cases hclose : x = d.closing
      · subst hclose
        rw [rise_closing hd, List.count_cons_self, List.count_cons_of_ne hd.symm]
        omega
      · rw [rise_symbol hopen hclose, List.count_cons_of_ne hopen, List.count_cons_of_ne hclose]
        omega

lemma evenBetween_iff_netDepth :
    d.EvenBetween text i j ↔ d.netDepth ((text.take (j + 1)).drop i) = 0 := by
  rw [EvenBetween, netDepth_eq_count_sub hd]
  omega

/-- Behind an opening delimiter, the text up to an even place ends one level below. -/
lemma evenBetween_opening_iff (hi : text[i]? = some d.opening) (hk : i ≤ k) :
    d.EvenBetween text i k ↔ d.netDepth ((text.drop (i + 1)).take (k - i)) = -1 := by
  obtain ⟨hlt, hopening⟩ := List.getElem?_eq_some_iff.mp hi
  have hlength : k + 1 - i = k - i + 1 := by omega
  rw [evenBetween_iff_netDepth hd, List.drop_take, List.drop_eq_getElem_cons hlt, hopening, hlength,
    List.take_succ_cons, netDepth_cons, rise_opening]
  omega

/-- In front of a closing delimiter, the text from an even place on ends one level above. -/
lemma evenBetween_closing_iff (hj : text[j]? = some d.closing) (hk : k ≤ j) :
    d.EvenBetween text k j ↔ d.netDepth ((text.take j).drop k) = 1 := by
  obtain ⟨hlt, hclosing⟩ := List.getElem?_eq_some_iff.mp hj
  have hlength : (text.take j).length = j := List.length_take_of_le hlt.le
  rw [evenBetween_iff_netDepth hd, List.take_succ_eq_append_getElem hlt, hclosing,
    List.drop_append_of_le_length (hlength.symm ▸ hk), netDepth_append, netDepth_cons,
    rise_closing hd, netDepth_nil]
  omega

/-- With the delimiters in exchanged roles a text read backward is as deep as the text is. -/
lemma netDepth_swap_reverse (text : List α) : d.swap.netDepth text.reverse = -d.netDepth text := by
  induction text with
  | nil => rfl
  | cons x text ih =>
    rw [List.reverse_cons, netDepth_append, ih, netDepth_cons, netDepth_cons, rise_swap hd,
      netDepth_nil]
    omega

omit hd in
/-- No part that a covered text starts with ends below its level. -/
lemma Covered.netDepth_take_nonneg (h : d.Covered 0 text) (n : Nat) :
    0 ≤ d.netDepth (text.take n) := by
  have hprefix := covered_iff_forall_prefix.mp h _ _ (List.take_append_drop n text).symm
  rwa [Int.zero_add] at hprefix

/-- If a text read backward is covered, no part that it ends with leads up. -/
lemma Covered.netDepth_drop_nonpos (h : d.swap.Covered 0 text.reverse) (n : Nat) :
    d.netDepth (text.drop n) ≤ 0 := by
  have hsplit : text.reverse = (text.drop n).reverse ++ (text.take n).reverse := by
    rw [← List.reverse_append, List.take_append_drop]
  have hprefix := covered_iff_forall_prefix.mp h _ _ hsplit
  rw [netDepth_swap_reverse hd] at hprefix
  omega

/-- The partner of an opening delimiter is the first even place behind it. -/
theorem Partners.isLeast (h : d.Partners text i j) :
    IsLeast {k | i < k ∧ k < text.length ∧ d.EvenBetween text i k} j := by
  obtain ⟨inside, rest, hinside, hdrop, hj⟩ := h.exists_drop
  constructor
  · refine ⟨by omega, h.lt_length, ?_⟩
    have hlength : j - i = inside.length + 1 := by omega
    rw [evenBetween_opening_iff hd h.getElem?_opening (by omega), hdrop, hlength,
      List.take_length_add_append, List.take_succ_cons, List.take_zero, netDepth_append,
      hinside.netDepth_eq_zero hd, netDepth_cons, rise_closing hd]
    rfl
  · rintro k ⟨hk, -, heven⟩
    by_contra hlt
    rw [evenBetween_opening_iff hd h.getElem?_opening hk.le, hdrop,
      List.take_append_of_le_length (by omega)] at heven
    have hnonneg := ((balanced_iff_covered hd).mp hinside).1.netDepth_take_nonneg (k - i)
    omega

/-- The partner of a closing delimiter is the last even place in front of it. -/
theorem Partners.isGreatest (h : d.Partners text i j) :
    IsGreatest {k | k < j ∧ d.EvenBetween text k j} i := by
  obtain ⟨inside, hinside, htake, hj⟩ := h.exists_take
  constructor
  · refine ⟨by omega, ?_⟩
    rw [evenBetween_closing_iff hd h.getElem?_closing (by omega), htake, netDepth_cons,
      rise_opening, hinside.netDepth_eq_zero hd, Int.add_zero]
  · rintro k ⟨hk, heven⟩
    by_contra hlt
    obtain ⟨n, rfl⟩ := Nat.exists_eq_add_of_lt (Nat.lt_of_not_le hlt)
    rw [evenBetween_closing_iff hd h.getElem?_closing hk.le, Nat.add_assoc, ← List.drop_drop, htake,
      List.drop_succ_cons] at heven
    have hcovered := ((balanced_iff_covered hd.symm).mp hinside.reverse).1
    have hnonpos := hcovered.netDepth_drop_nonpos hd n
    omega

/-- From an opening delimiter a walk forward finds the first even place behind it. -/
theorem matchIndex_forward_eq_some_iff_isLeast (hi : text[i]? = some d.opening) :
    d.matchIndex text i .forward = some j ↔
      IsLeast {k | i < k ∧ k < text.length ∧ d.EvenBetween text i k} j := by
  constructor
  · intro h
    exact ((matchIndex_forward_eq_some_iff hd hi).mp h).isLeast hd
  · intro hleast
    cases hwalk : d.matchIndex text i .forward with
    | none =>
      -- What lies ahead never leaves the level, so that no place is even.
      obtain ⟨⟨hij, -, heven⟩, -⟩ := hleast
      rw [evenBetween_opening_iff hd hi hij.le] at heven
      have hlt := (List.getElem?_eq_some_iff.mp hi).1
      have hcovered := (matchIndex_forward_eq_none_iff hlt).mp hwalk
      have hnonneg := hcovered.netDepth_take_nonneg (j - i)
      omega
    | some k =>
      have hpartners := (matchIndex_forward_eq_some_iff hd hi).mp hwalk
      rw [(hpartners.isLeast hd).unique hleast]

/-- From a closing delimiter a walk backward finds the last even place in front of it. -/
theorem matchIndex_backward_eq_some_iff_isGreatest (hj : text[j]? = some d.closing) :
    d.matchIndex text j .backward = some i ↔
      IsGreatest {k | k < j ∧ d.EvenBetween text k j} i := by
  constructor
  · intro h
    exact ((matchIndex_backward_eq_some_iff hd hj).mp h).isGreatest hd
  · intro hgreatest
    cases hwalk : d.matchIndex text j .backward with
    | none =>
      -- The same with what lies behind, read backward.
      obtain ⟨⟨hij, heven⟩, -⟩ := hgreatest
      rw [evenBetween_closing_iff hd hj hij.le] at heven
      have hcovered := matchIndex_backward_eq_none_iff.mp hwalk
      have hnonpos := hcovered.netDepth_drop_nonpos hd i
      omega
    | some k =>
      have hpartners := (matchIndex_backward_eq_some_iff hd hj).mp hwalk
      rw [(hpartners.isGreatest hd).unique hgreatest]

end EvenBetween

/-! ### The counts of a walk -/

section Counts

variable [DecidableEq α]

variable (d) in
/-- The counts of a walk along `ahead`: of `count` levels that are open, each symbol that is passed
opens another one, closes one or does neither. A walk ends when none is open. -/
def counts (count : Int) : List α → List Int
  | [] => []
  | x :: ahead =>
    if count + d.rise x = 0 then [0] else (count + d.rise x) :: counts (count + d.rise x) ahead

variable (d) in
/-- The counts of a walk from the delimiter at an index, which has opened one level. -/
def countsFrom (text : List α) (index : Nat) : Direction → List Int
  | .forward => d.counts 1 (text.drop (index + 1))
  | .backward => d.swap.counts 1 (text.take index).reverse

lemma counts_cons {count next : Int} {x : α} (hnext : count + d.rise x = next) (hopen : next ≠ 0)
    (ahead : List α) : d.counts count (x :: ahead) = next :: d.counts next ahead := by
  rw [counts, hnext, if_neg hopen]

lemma length_counts_le (count : Int) (ahead : List α) :
    (d.counts count ahead).length ≤ ahead.length := by
  induction ahead generalizing count with
  | nil => exact Nat.le_refl 0
  | cons x ahead ih =>
    rw [counts]
    split
    · simp
    · exact Nat.succ_le_succ (ih _)

/-- A count that starts above zero is never less than zero. -/
lemma nonneg_of_mem_counts {count n : Int} {ahead : List α} (hcount : 0 < count)
    (h : n ∈ d.counts count ahead) : 0 ≤ n := by
  induction ahead generalizing count with
  | nil => cases h
  | cons x ahead ih =>
    have hstep := d.neg_one_le_rise x
    rw [counts] at h
    split at h
    · rw [List.mem_singleton.mp h]
    · next hopen =>
      rcases List.mem_cons.mp h with rfl | h
      · omega
      · exact ih (by omega) h

lemma nonneg_of_mem_countsFrom {n : Int} {direction : Direction}
    (h : n ∈ d.countsFrom text i direction) : 0 ≤ n := by
  cases direction with
  | forward => exact nonneg_of_mem_counts Int.one_pos h
  | backward => exact nonneg_of_mem_counts Int.one_pos h

/-- Where a walk ends that passes a symbol at each count: just behind the last one, if it is zero,
and otherwise nowhere. -/
def cutAtZero (counts : List Int) (passed ahead : List α) : Option (List α × List α) :=
  if 0 ∈ counts then
    some ((ahead.take counts.length).reverse ++ passed, ahead.drop counts.length)
  else none

omit [DecidableEq α] in
lemma cutAtZero_cons {count : Int} (hopen : count ≠ 0) (counts : List Int) (x : α)
    (passed ahead : List α) :
    cutAtZero (count :: counts) passed (x :: ahead) = cutAtZero counts (x :: passed) ahead := by
  simp [cutAtZero, hopen.symm]

/-- A walk is told by its counts. -/
lemma leaveLevel_eq_cutAtZero (depth : Nat) (passed ahead : List α) :
    leaveLevel d.opening d.closing depth passed ahead =
      cutAtZero (d.counts (depth + 1) ahead) passed ahead := by
  have hpositive : ∀ depth : Nat, (depth + 1 : Int) ≠ 0 := by omega
  fun_induction leaveLevel d.opening d.closing depth passed ahead with
  | case1 => rfl
  | case2 depth passed ahead ih =>
    have hnext : (depth + 1 : Int) + d.rise d.opening = (depth + 1 : Nat) + 1 := by simp
    rw [ih, counts_cons hnext (hpositive _), cutAtZero_cons (hpositive _)]
  | case3 passed ahead hopen =>
    have hcounts : d.counts ((0 : Nat) + 1) (d.closing :: ahead) = [0] := by
      rw [counts, rise_closing (Ne.symm hopen)]
      rfl
    rw [hcounts]
    rfl
  | case4 passed ahead depth hopen ih =>
    have hnext : ((depth + 1 : Nat) + 1 : Int) + d.rise d.closing = depth + 1 := by
      rw [rise_closing (Ne.symm hopen)]
      omega
    rw [ih, counts_cons hnext (hpositive _), cutAtZero_cons (hpositive _)]
  | case5 depth passed x ahead hopen hclose ih =>
    have hnext : (depth + 1 : Int) + d.rise x = depth + 1 := by
      rw [rise_symbol hopen hclose, Int.add_zero]
    rw [ih, counts_cons hnext (hpositive _), cutAtZero_cons (hpositive _)]

/-- A walk forward ends as many symbols behind the delimiter as it counts. -/
lemma matchIndex_forward_eq_countsFrom (hi : i < text.length) :
    d.matchIndex text i .forward =
      if 0 ∈ d.countsFrom text i .forward then some (i + (d.countsFrom text i .forward).length)
      else none := by
  have hlength := length_counts_le (d := d) 1 (text.drop (i + 1))
  rw [matchIndex_forward_eq_map hi, leaveLevel_eq_cutAtZero, cutAtZero, countsFrom, Nat.cast_zero,
    Int.zero_add]
  split
  · rw [Option.map_some, List.length_append, List.length_reverse, List.length_take_of_le hlength,
      List.length_cons, List.length_reverse, List.length_take_of_le hi.le]
    congr 1
    omega
  · rfl

/-- A walk backward ends as many symbols in front of the delimiter as it counts. -/
lemma matchIndex_backward_eq_countsFrom (hj : j < text.length) :
    d.matchIndex text j .backward =
      if 0 ∈ d.countsFrom text j .backward then some (j - (d.countsFrom text j .backward).length)
      else none := by
  have hwalk := leaveLevel_eq_cutAtZero (d := d.swap) 0 (text.drop j) (text.take j).reverse
  simp only [swap] at hwalk
  rw [matchIndex_backward_eq_map, hwalk, cutAtZero, countsFrom, Nat.cast_zero, Int.zero_add, swap]
  split
  · rw [Option.map_some, List.length_drop, List.length_reverse, List.length_take_of_le hj.le]
  · rfl

end Counts

/-! ### The pairing of bytes -/

/-- Forward from an opening delimiter `matchIndex` finds the least index up to which as many
delimiters close as open, backward from a closing one it finds the greatest such index, and the one
finds the other exactly if the other finds the one. The count that a walk keeps decides what it
finds, and is never below zero. If the bytes are those of a text and the delimiters are ASCII, then
what is found is a character of its own. -/
theorem matchIndex_pairing {d : Delimiters UInt8} (hd : d.opening ≠ d.closing)
    (code : List UInt8) :
    (∀ i j, code[i]? = some d.opening →
      (d.matchIndex code i .forward = some j ↔
        IsLeast {k | i < k ∧ k < code.length ∧ d.EvenBetween code i k} j)) ∧
    (∀ i j, code[j]? = some d.closing →
      (d.matchIndex code j .backward = some i ↔
        IsGreatest {k | k < j ∧ d.EvenBetween code k j} i)) ∧
    (∀ i j, code[i]? = some d.opening ∧ d.matchIndex code i .forward = some j ↔
      code[j]? = some d.closing ∧ d.matchIndex code j .backward = some i) ∧
    (∀ i, i < code.length →
      (d.matchIndex code i .forward =
        if 0 ∈ d.countsFrom code i .forward then some (i + (d.countsFrom code i .forward).length)
        else none) ∧
      (d.matchIndex code i .backward =
        if 0 ∈ d.countsFrom code i .backward then some (i - (d.countsFrom code i .backward).length)
        else none) ∧
      ∀ direction, ∀ count ∈ d.countsFrom code i direction, 0 ≤ count) ∧
    ∀ text, code = Text.bytes text → d.opening < 0x80 → d.closing < 0x80 → ∀ i j,
      code[i]? = some d.opening ∧ d.matchIndex code i .forward = some j ∨
        code[i]? = some d.closing ∧ d.matchIndex code i .backward = some j →
      Text.IsBoundary text j ∧ Text.IsBoundary text (j + 1) := by
  refine ⟨?_, ?_, ?_, ?_, ?_⟩
  · intro i j hi
    exact matchIndex_forward_eq_some_iff_isLeast hd hi
  · intro i j hj
    exact matchIndex_backward_eq_some_iff_isGreatest hd hj
  · intro i j
    rw [and_forward_iff_partners hd, and_backward_iff_partners hd]
  · intro i hi
    exact ⟨matchIndex_forward_eq_countsFrom hi, matchIndex_backward_eq_countsFrom hi,
      fun _ _ => nonneg_of_mem_countsFrom⟩
  · rintro text rfl hopening hclosing i j (h | h)
    · have hpartners := (and_forward_iff_partners hd).mp h
      exact Text.isBoundary_of_lt hpartners.getElem?_closing hclosing
    · have hpartners := (and_backward_iff_partners hd).mp h
      exact Text.isBoundary_of_lt hpartners.getElem?_opening hopening

/-- The bracket at byte 3 stands behind a character of two bytes and has another pair inside, where
a parenthesis counts for nothing. Its partner is the last bracket. -/
theorem matchIndex_pairing_nested :
    let d : Delimiters UInt8 := ⟨0x5B, 0x5D⟩
    let text := "]é[a[(]]".toList
    d.opening ≠ d.closing ∧ d.opening < 0x80 ∧ d.closing < 0x80 ∧
      (Text.bytes text)[3]? = some d.opening ∧ (Text.bytes text)[8]? = some d.closing ∧
      IsLeast {k | 3 < k ∧ k < (Text.bytes text).length ∧ d.EvenBetween (Text.bytes text) 3 k} 8 ∧
      IsGreatest {k | k < 8 ∧ d.EvenBetween (Text.bytes text) k 8} 3 ∧
      d.matchIndex (Text.bytes text) 8 .backward = some 3 ∧
      (∀ count ∈ d.countsFrom (Text.bytes text) 3 .forward, 0 ≤ count) ∧
      Text.IsBoundary text 8 ∧ Text.IsBoundary text 9 := by
  intro d text
  have hd : d.opening ≠ d.closing := by decide
  obtain ⟨hleast, hgreatest, hsymm, hcounts, hboundary⟩ := matchIndex_pairing hd (Text.bytes text)
  have hopening : (Text.bytes text)[3]? = some d.opening := by decide
  have hforward : d.matchIndex (Text.bytes text) 3 .forward = some 8 := by decide
  obtain ⟨hclosing, hbackward⟩ := (hsymm 3 8).mp ⟨hopening, hforward⟩
  have hascii : d.opening < 0x80 ∧ d.closing < 0x80 := by decide
  exact ⟨hd, hascii.1, hascii.2, hopening, hclosing, (hleast 3 8 hopening).mp hforward,
    (hgreatest 3 8 hclosing).mp hbackward, hbackward, (hcounts 3 (by decide)).2.2 .forward,
    hboundary text rfl hascii.1 hascii.2 3 8 (Or.inl ⟨hopening, hforward⟩)⟩

end TapeTower.Delimiters
