import TapeTower.Proofs.Pairing

/-!
# Delimiters without a partner

A delimiter has a partner if a walk from it finds one: forward from an opening delimiter, and
backward from a closing one. The balance check never walks. It reads the text once with a stack
of the openings that wait, and yet it reports the first delimiter without a partner, and nothing
if there is none (`firstUnmatched_eq_some_iff`, `firstUnmatched_eq_none_iff_forall`).

What connects the two is the shape of a text around this delimiter (`Lone`): the text before it is
balanced, and behind an opening one no delimiter leads below its level.
-/

namespace TapeTower.Delimiters

variable {α : Type} [DecidableEq α] {d : Delimiters α}

/-! ### Walks without a partner -/

variable (d) in
/-- The symbol at an index is a delimiter, and a walk from it finds no partner. -/
def Unpartnered (text : List α) (index : Nat) : Prop :=
  text[index]? = some d.opening ∧ d.matchIndex text index .forward = none ∨
    text[index]? = some d.closing ∧ d.matchIndex text index .backward = none

lemma Unpartnered.exists_symbol {text : List α} {i : Nat} (h : d.Unpartnered text i) :
    ∃ side, text[i]? = some (d.symbol side) := by
  rcases h with ⟨hopen, -⟩ | ⟨hclose, -⟩
  · exact ⟨.opening, hopen⟩
  · exact ⟨.closing, hclose⟩

/-- In the balanced text that another one starts with, every delimiter has a partner. -/
lemma Balanced.not_unpartnered (hd : d.opening ≠ d.closing) {s : List α} (hs : d.Balanced s)
    (t : List α) {i : Nat} (hi : i < s.length) : ¬ d.Unpartnered (s ++ t) i := by
  rw [Unpartnered, List.getElem?_append_left hi]
  rintro (⟨hopen, hwalk⟩ | ⟨hclose, hwalk⟩)
  · obtain ⟨j, hpartners⟩ := hs.exists_partners_of_opening hd hopen
    rw [(hpartners.append_right t).matchIndex_forward hd] at hwalk
    cases hwalk
  · obtain ⟨j, hpartners⟩ := hs.exists_partners_of_closing hd hclose
    rw [(hpartners.append_right t).matchIndex_backward hd] at hwalk
    cases hwalk

/-! ### The first delimiter without a partner -/

variable (d) in
/-- A delimiter of the given side between the two texts is the first one without a partner. -/
inductive Lone : Side → List α → List α → Prop
  | closing {s t : List α} (hs : d.Balanced s) : Lone .closing s t
  | opening {s t : List α} (hs : d.Balanced s) (ht : d.Covered 0 t) : Lone .opening s t

namespace Lone

variable {side : Side} {s t : List α}

lemma balanced (h : d.Lone side s t) : d.Balanced s := by
  cases h with
  | closing hs => exact hs
  | opening hs => exact hs

/-- A balanced text in front changes nothing. -/
lemma append_left {r : List α} (hr : d.Balanced r) (h : d.Lone side s t) :
    d.Lone side (r ++ s) t := by
  cases h with
  | closing hs => exact .closing (hr.append hs)
  | opening hs ht => exact .opening (hr.append hs) ht

lemma unpartnered (hd : d.opening ≠ d.closing) (h : d.Lone side s t) :
    d.Unpartnered (s ++ d.symbol side :: t) s.length := by
  cases h with
  | closing hs =>
    refine Or.inr ⟨by simp [symbol], ?_⟩
    rw [matchIndex_backward_eq_none_iff, List.take_left]
    exact ((balanced_iff_covered hd.symm).mp hs.reverse).1
  | opening _ ht =>
    refine Or.inl ⟨by simp [symbol], ?_⟩
    rw [matchIndex_forward_eq_none_iff (by simp), ← List.drop_drop, List.drop_left]
    exact ht

/-- It is the first one indeed. -/
lemma isLeast (hd : d.opening ≠ d.closing) (h : d.Lone side s t) :
    IsLeast {i | d.Unpartnered (s ++ d.symbol side :: t) i} s.length := by
  refine ⟨h.unpartnered hd, fun i hi => ?_⟩
  by_contra hlt
  exact h.balanced.not_unpartnered hd _ (Nat.lt_of_not_le hlt) hi

end Lone

/-- A text that is not balanced has a first delimiter without a partner. -/
theorem balanced_or_exists_lone (hd : d.opening ≠ d.closing) (text : List α) :
    d.Balanced text ∨ ∃ side s t, d.Lone side s t ∧ text = s ++ d.symbol side :: t := by
  induction hn : text.length using Nat.strong_induction_on generalizing text with
  | _ n ih =>
    -- What stands behind a balanced text decides.
    have hrest : ∀ r rest, d.Balanced r → text = r ++ rest → rest.length < n →
        d.Balanced text ∨ ∃ side s t, d.Lone side s t ∧ text = s ++ d.symbol side :: t := by
      rintro r rest hr rfl hlt
      rcases ih rest.length hlt rest rfl with hbalanced | ⟨side, s, t, hlone, rfl⟩
      · exact Or.inl (hr.append hbalanced)
      · exact Or.inr ⟨side, r ++ s, t, hlone.append_left hr, (List.append_assoc _ _ _).symm⟩
    cases text with
    | nil => exact Or.inl .nil
    | cons x text =>
      rw [List.length_cons] at hn
      by_cases hopen : x = d.opening
      · subst hopen
        cases hwalk : leaveLevel d.opening d.closing 0 [] text with
        | none =>
          exact Or.inr ⟨.opening, [], text, .opening .nil (leaveLevel_eq_none_iff.mp hwalk), rfl⟩
        | some result =>
          obtain ⟨passed, rest⟩ := result
          obtain ⟨inside, -, rfl, hinside⟩ := exists_balanced_of_leaveLevel hd hwalk
          refine hrest (d.opening :: (inside ++ [d.closing])) rest (.group hinside .nil)
            (by simp) ?_
          rw [List.length_append, List.length_cons] at hn
          omega
      · by_cases hclose : x = d.closing
        · exact Or.inr ⟨.closing, [], text, .closing .nil, by rw [hclose]; rfl⟩
        · exact hrest [x] text (.symbol hopen hclose .nil) rfl (by omega)

/-! ### The balance check -/

/-- As long as the levels that were entered later are all that is left, the check keeps the
opening delimiter that waits outermost. -/
lemma firstUnmatchedFrom_of_covered (hd : d.opening ≠ d.closing) (index : Nat)
    (waiting : List Nat) (first : Nat) {text : List α} (h : d.Covered waiting.length text) :
    d.firstUnmatchedFrom index (waiting ++ [first]) text = some (.opening, first) := by
  induction text generalizing index waiting with
  | nil => simp [firstUnmatchedFrom]
  | cons x text ih =>
    rw [covered_cons] at h
    by_cases hopen : x = d.opening
    · subst hopen
      rw [rise_opening] at h
      rw [firstUnmatchedFrom_opening]
      exact ih (index + 1) (index :: waiting) h.2
    · by_cases hclose : x = d.closing
      · subst hclose
        rw [rise_closing hd] at h
        cases waiting with
        | nil => exact absurd h.2.nonneg (by decide)
        | cons inner waiting =>
          rw [List.cons_append, firstUnmatchedFrom_closing hd]
          exact ih (index + 1) waiting (h.2.mono (by simp))
      · rw [rise_symbol hopen hclose, Int.add_zero] at h
        rw [firstUnmatchedFrom_symbol hopen hclose]
        exact ih (index + 1) waiting h.2

/-- The check reports the first delimiter without a partner. -/
lemma Lone.firstUnmatched_eq (hd : d.opening ≠ d.closing) {side : Side} {s t : List α}
    (h : d.Lone side s t) :
    d.firstUnmatched (s ++ d.symbol side :: t) = some (side, s.length) := by
  rw [firstUnmatched, firstUnmatchedFrom_append hd h.balanced, Nat.zero_add]
  cases h with
  | closing => exact firstUnmatchedFrom_closing_nil hd _ _
  | opening _ ht =>
    rw [symbol, firstUnmatchedFrom_opening]
    exact firstUnmatchedFrom_of_covered hd _ [] _ ht

omit [DecidableEq α] in
lemma symbol_injective (hd : d.opening ≠ d.closing) : Function.Injective d.symbol := by
  rintro (_ | _) (_ | _) h
  · rfl
  · exact absurd h hd
  · exact absurd h.symm hd
  · rfl

/-- The check reports nothing exactly if every delimiter has a partner. -/
theorem firstUnmatched_eq_none_iff_forall (hd : d.opening ≠ d.closing) {text : List α} :
    d.firstUnmatched text = none ↔ ∀ i, ¬ d.Unpartnered text i := by
  rcases balanced_or_exists_lone hd text with hbalanced | ⟨side, s, t, hlone, rfl⟩
  · refine iff_of_true ((firstUnmatched_eq_none_iff hd).mpr hbalanced) fun i hi => ?_
    by_cases hlt : i < text.length
    · rw [← List.append_nil text] at hi
      exact hbalanced.not_unpartnered hd [] hlt hi
    · simp [Unpartnered, List.getElem?_eq_none (Nat.le_of_not_lt hlt)] at hi
  · refine iff_of_false ?_ fun h => h s.length (hlone.unpartnered hd)
    rw [hlone.firstUnmatched_eq hd]
    exact Option.some_ne_none _

/-- The check reports the first delimiter without a partner, and its side. -/
theorem firstUnmatched_eq_some_iff (hd : d.opening ≠ d.closing) {text : List α} {side : Side}
    {i : Nat} :
    d.firstUnmatched text = some (side, i) ↔
      IsLeast {k | d.Unpartnered text k} i ∧ text[i]? = some (d.symbol side) := by
  rcases balanced_or_exists_lone hd text with hbalanced | ⟨side', s, t, hlone, rfl⟩
  · have hnone := (firstUnmatched_eq_none_iff hd).mpr hbalanced
    rw [hnone]
    refine iff_of_false (by simp) fun h => ?_
    exact (firstUnmatched_eq_none_iff_forall hd).mp hnone i h.1.1
  · have hsymbol : (s ++ d.symbol side' :: t)[s.length]? = some (d.symbol side') := by simp
    rw [hlone.firstUnmatched_eq hd]
    constructor
    · intro h
      cases h
      exact ⟨hlone.isLeast hd, hsymbol⟩
    · rintro ⟨hleast, hside⟩
      obtain rfl := hleast.unique (hlone.isLeast hd)
      rw [hsymbol] at hside
      rw [symbol_injective hd (Option.some.inj hside)]

/-- Every delimiter has a partner if each walk finds one. -/
lemma forall_not_unpartnered_iff {text : List α} :
    (∀ i, ¬ d.Unpartnered text i) ↔
      (∀ i, text[i]? = some d.opening → ∃ j, d.matchIndex text i .forward = some j) ∧
        ∀ i, text[i]? = some d.closing → ∃ j, d.matchIndex text i .backward = some j := by
  simp only [Unpartnered, not_or, not_and, ← ne_eq, Option.ne_none_iff_exists', forall_and]

/-- What the check reports is the least index at which a delimiter has no partner. It reports
nothing exactly if every opening delimiter finds its partner forward and every closing one
backward, and then the text is as deep at its end as at its beginning. -/
theorem firstUnmatched_iff_unpartnered (hd : d.opening ≠ d.closing) (text : List α) :
    (∀ i, (d.firstUnmatched text).map Prod.snd = some i ↔
      IsLeast {k | d.Unpartnered text k} i) ∧
    (d.firstUnmatched text = none ↔
      (∀ i, text[i]? = some d.opening → ∃ j, d.matchIndex text i .forward = some j) ∧
        ∀ i, text[i]? = some d.closing → ∃ j, d.matchIndex text i .backward = some j) ∧
    (d.firstUnmatched text = none → d.netDepth text = 0 ∧ d.allMatched text = true) := by
  refine ⟨fun i => ?_, ?_, fun hnone => ?_⟩
  · constructor
    · intro h
      obtain ⟨⟨side, _⟩, hfirst, rfl⟩ := Option.map_eq_some_iff.mp h
      exact ((firstUnmatched_eq_some_iff hd).mp hfirst).1
    · intro hleast
      obtain ⟨side, hside⟩ := hleast.1.exists_symbol
      rw [(firstUnmatched_eq_some_iff hd).mpr ⟨hleast, hside⟩]
      rfl
  · rw [firstUnmatched_eq_none_iff_forall hd, forall_not_unpartnered_iff]
  · have hdepth := (firstUnmatched_eq_none_iff_covered.mp hnone).2
    exact ⟨hdepth, allMatched_iff.mpr hdepth⟩

/-- Of the openings at 0, 2 and 3 in `[][[]` only the second one is never closed. In `[[]]` both
are. -/
theorem firstUnmatched_iff_unpartnered_pending :
    let d : Delimiters UInt8 := ⟨0x5B, 0x5D⟩
    d.opening ≠ d.closing ∧
      IsLeast {k | d.Unpartnered [0x5B, 0x5D, 0x5B, 0x5B, 0x5D] k} 2 ∧
      d.firstUnmatched [0x5B, 0x5B, 0x5D, 0x5D] = none ∧
      (∃ j, d.matchIndex [0x5B, 0x5B, 0x5D, 0x5D] 3 .backward = some j) ∧
      d.netDepth [0x5B, 0x5B, 0x5D, 0x5D] = 0 ∧ d.allMatched [0x5B, 0x5B, 0x5D, 0x5D] = true := by
  intro d
  have hd : d.opening ≠ d.closing := by decide
  have hpending : d.firstUnmatched [0x5B, 0x5D, 0x5B, 0x5B, 0x5D] = some (.opening, 2) := by decide
  have hnone : d.firstUnmatched [0x5B, 0x5B, 0x5D, 0x5D] = none := by decide
  obtain ⟨hleast, -, -⟩ := firstUnmatched_iff_unpartnered hd [0x5B, 0x5D, 0x5B, 0x5B, 0x5D]
  obtain ⟨-, hiff, hzero⟩ := firstUnmatched_iff_unpartnered hd [0x5B, 0x5B, 0x5D, 0x5D]
  refine ⟨hd, (hleast 2).mp ?_, hnone, (hiff.mp hnone).2 3 (by decide), hzero hnone⟩
  rw [hpending]
  rfl

/-- In a text of the same delimiters the check reports the one that corresponds to the first
delimiter without a partner: it is the same and has as many in front of it. -/
theorem firstUnmatched_eq_some_iff_of_skeleton_eq (hd : d.opening ≠ d.closing) {s t : List α}
    (h : d.skeleton s = d.skeleton t) {side : Side} {j : Nat} :
    d.firstUnmatched t = some (side, j) ↔
      ∃ i, IsLeast {k | d.Unpartnered s k} i ∧ s[i]? = some (d.symbol side) ∧
        t[j]? = some (d.symbol side) ∧ d.ordinal t j = d.ordinal s i := by
  constructor
  · intro ht
    obtain ⟨i, hs, hordinal⟩ := exists_firstUnmatched_of_skeleton_eq hd h.symm ht
    obtain ⟨hleast, hsymbol⟩ := (firstUnmatched_eq_some_iff hd).mp hs
    exact ⟨i, hleast, hsymbol, ((firstUnmatched_eq_some_iff hd).mp ht).2, hordinal.symm⟩
  · rintro ⟨i, hleast, hs, ht, hordinal⟩
    have hfirst := (firstUnmatched_eq_some_iff hd).mpr ⟨hleast, hs⟩
    obtain ⟨j', hj', hordinal'⟩ := exists_firstUnmatched_of_skeleton_eq hd h hfirst
    have hj := ((firstUnmatched_eq_some_iff hd).mp hj').2
    have hsymbol : d.symbol side = d.opening ∨ d.symbol side = d.closing := by
      cases side <;> simp [symbol]
    rw [eq_of_ordinal_eq ht hj hsymbol hsymbol (hordinal.trans hordinal'.symm), hj']

end TapeTower.Delimiters
