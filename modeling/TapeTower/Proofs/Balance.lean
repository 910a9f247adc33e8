import Mathlib.Tactic.Common
import TapeTower.Delimiter

/-!
# Balanced texts

`Balanced` is the grammar of the texts in which every delimiter has its partner.
A walk over the levels passes a balanced text without noticing it
(`leaveLevel_append_of_balanced`), and this is what makes a jump land at the
partner: `afterPartner_forward` and `afterPartner_backward` say where a jump
from either end of a group leads. From anywhere in a balanced text a jump finds
its partner, and stays in the text.

The balance check finds nothing to report exactly on the balanced texts
(`firstUnmatched_eq_none_iff`). It reads a text from the left with a stack of
openings; what it may still meet after some of them is `Closes`.
-/

namespace TapeTower

variable {α : Type}

namespace Delimiters

/-- A text in which every delimiter has its partner: it is empty, or it starts
with a symbol that is no delimiter, or with a whole group. -/
inductive Balanced (d : Delimiters α) : List α → Prop
  | nil : Balanced d []
  | symbol {x : α} {text : List α} (hopen : x ≠ d.opening) (hclose : x ≠ d.closing)
      (htext : Balanced d text) : Balanced d (x :: text)
  | group {inside text : List α} (hinside : Balanced d inside) (htext : Balanced d text) :
      Balanced d (d.opening :: (inside ++ d.closing :: text))

/-- The same pair of delimiters in exchanged roles, as a walk back meets them. -/
def swap (d : Delimiters α) : Delimiters α := ⟨d.closing, d.opening⟩

variable {d : Delimiters α}

/-! ### Building balanced texts -/

/-- Two balanced texts after each other are balanced. -/
lemma Balanced.append {s t : List α} (hs : d.Balanced s) (ht : d.Balanced t) :
    d.Balanced (s ++ t) := by
  induction hs with
  | nil => exact ht
  | symbol hopen hclose _ ih => exact .symbol hopen hclose ih
  | group hinside _ _ ih =>
    rw [List.cons_append, List.append_assoc, List.cons_append]
    exact .group hinside ih

/-- A text without delimiters is balanced. -/
lemma balanced_of_forall_ne {text : List α}
    (h : ∀ x ∈ text, x ≠ d.opening ∧ x ≠ d.closing) : d.Balanced text := by
  induction text with
  | nil => exact .nil
  | cons x text ih =>
    obtain ⟨hopen, hclose⟩ := h x (by simp)
    exact .symbol hopen hclose (ih fun y hy => h y (by simp [hy]))

/-- A balanced text read backward is balanced, with the delimiters in exchanged
roles. -/
lemma Balanced.reverse {text : List α} (h : d.Balanced text) :
    d.swap.Balanced text.reverse := by
  induction h with
  | nil => exact .nil
  | symbol hopen hclose _ ih =>
    rw [List.reverse_cons]
    exact ih.append (.symbol hclose hopen .nil)
  | group _ _ ihinside ihtext =>
    have hgroup := ihtext.append (.group ihinside .nil)
    simpa [swap] using hgroup

/-- Behind an opening delimiter in a balanced text there is a balanced text and the partner
of the delimiter. -/
lemma Balanced.exists_of_append_opening (hd : d.opening ≠ d.closing) {s t : List α}
    (h : d.Balanced (s ++ d.opening :: t)) :
    ∃ inside rest, d.Balanced inside ∧ t = inside ++ d.closing :: rest := by
  generalize htext : s ++ d.opening :: t = text at h
  induction h generalizing s t with
  | nil => simp at htext
  | symbol hopen _ _ ih =>
    cases s with
    | nil => exact absurd (List.cons.inj htext).1.symm hopen
    | cons y s => exact ih (List.cons.inj htext).2
  | @group inside text hinside _ ihinside ihtext =>
    cases s with
    | nil => exact ⟨inside, text, hinside, (List.cons.inj htext).2⟩
    | cons y s =>
      rcases List.append_eq_append_iff.mp (List.cons.inj htext).2 with ⟨u, hu, hopen⟩ | ⟨u, hs, hu⟩
      · -- The delimiter stands inside the group, whose own end comes after its partner.
        cases u with
        | nil => exact absurd (List.cons.inj hopen).1 hd
        | cons z u =>
          obtain ⟨rfl, rfl⟩ := List.cons.inj hopen
          obtain ⟨inside', rest, hinside', rfl⟩ := ihinside hu.symm
          exact ⟨inside', rest ++ d.closing :: text, hinside', by simp⟩
      · -- The delimiter stands behind the group.
        cases u with
        | nil => exact absurd (List.cons.inj hu).1.symm hd
        | cons z u => exact ihtext (List.cons.inj hu).2.symm

/-! ### Groups that are still open -/

variable (d) in
/-- A text that is balanced but for closing `depth` groups which were opened
before it. -/
def Closes : (depth : Nat) → List α → Prop
  | 0, text => d.Balanced text
  | depth + 1, text =>
    ∃ inside rest, d.Balanced inside ∧ Closes depth rest ∧ text = inside ++ d.closing :: rest

/-- A balanced text in front leaves the number of groups to close as it is. -/
lemma Balanced.closes_append {s t : List α} (hs : d.Balanced s) {depth : Nat}
    (ht : d.Closes depth t) : d.Closes depth (s ++ t) := by
  cases depth with
  | zero => exact hs.append ht
  | succ depth =>
    obtain ⟨inside, rest, hinside, hrest, rfl⟩ := ht
    exact ⟨s ++ inside, rest, hs.append hinside, hrest, (List.append_assoc _ _ _).symm⟩

/-- An opening delimiter in front pairs up with the first group to close. -/
lemma closes_opening_cons {depth : Nat} {text : List α} (h : d.Closes (depth + 1) text) :
    d.Closes depth (d.opening :: text) := by
  obtain ⟨inside, rest, hinside, hrest, rfl⟩ := h
  have hgroup : d.Balanced (d.opening :: (inside ++ [d.closing])) := .group hinside .nil
  simpa using hgroup.closes_append hrest

end Delimiters

open Delimiters

variable [DecidableEq α] {d : Delimiters α}

/-! ### Walking over a balanced text -/

/-- A walk counts a level that it enters. -/
lemma leaveLevel_enter (enter leave : α) (depth : Nat) (passed ahead : List α) :
    leaveLevel enter leave depth passed (enter :: ahead) =
      leaveLevel enter leave (depth + 1) (enter :: passed) ahead := by
  cases depth <;> simp [leaveLevel]

/-- A walk that has entered a level goes on after leaving it. -/
lemma leaveLevel_leave_succ {enter leave : α} (h : enter ≠ leave) (depth : Nat)
    (passed ahead : List α) :
    leaveLevel enter leave (depth + 1) passed (leave :: ahead) =
      leaveLevel enter leave depth (leave :: passed) ahead := by
  simp [leaveLevel, h.symm]

/-- A walk ends where it leaves the level that it began in. -/
lemma leaveLevel_leave_zero {enter leave : α} (h : enter ≠ leave) (passed ahead : List α) :
    leaveLevel enter leave 0 passed (leave :: ahead) = some (leave :: passed, ahead) := by
  simp [leaveLevel, h.symm]

/-- A walk passes any symbol that is no delimiter. -/
lemma leaveLevel_symbol {enter leave x : α} (henter : x ≠ enter) (hleave : x ≠ leave)
    (depth : Nat) (passed ahead : List α) :
    leaveLevel enter leave depth passed (x :: ahead) =
      leaveLevel enter leave depth (x :: passed) ahead := by
  cases depth <;> simp [leaveLevel, henter, hleave]

/-- A walk keeps the text that it is on, and ends with the symbol that leaves. -/
lemma leaveLevel_eq_some {enter leave : α} {depth : Nat}
    {passed ahead passed' rest : List α}
    (h : leaveLevel enter leave depth passed ahead = some (passed', rest)) :
    ∃ inside, passed' = leave :: (inside.reverse ++ passed) ∧ ahead = inside ++ leave :: rest := by
  fun_induction leaveLevel enter leave depth passed ahead with
  | case1 => cases h
  | case2 _ _ _ ih =>
    obtain ⟨inside, rfl, rfl⟩ := ih h
    exact ⟨enter :: inside, by simp, rfl⟩
  | case3 =>
    cases h
    exact ⟨[], rfl, rfl⟩
  | case4 _ _ _ _ ih =>
    obtain ⟨inside, rfl, rfl⟩ := ih h
    exact ⟨leave :: inside, by simp, rfl⟩
  | case5 _ _ x _ _ _ ih =>
    obtain ⟨inside, rfl, rfl⟩ := ih h
    exact ⟨x :: inside, by simp, rfl⟩

/-- A walk passes a balanced text at the depth that it is at. -/
lemma leaveLevel_append_of_balanced (hd : d.opening ≠ d.closing) {s : List α}
    (hs : d.Balanced s) (depth : Nat) (passed rest : List α) :
    leaveLevel d.opening d.closing depth passed (s ++ rest) =
      leaveLevel d.opening d.closing depth (s.reverse ++ passed) rest := by
  induction hs generalizing depth passed rest with
  | nil => rfl
  | symbol hopen hclose _ ih =>
    rw [List.cons_append, leaveLevel_symbol hopen hclose, ih]
    simp
  | group _ _ ihinside ihtext =>
    rw [List.cons_append, List.append_assoc, leaveLevel_enter, ihinside, List.cons_append,
      leaveLevel_leave_succ hd, ihtext]
    simp

/-- From inside a group, a walk over what is left of it ends just after the
delimiter that closes the group. -/
lemma leaveLevel_of_balanced (hd : d.opening ≠ d.closing) {s : List α} (hs : d.Balanced s)
    (passed rest : List α) :
    leaveLevel d.opening d.closing 0 passed (s ++ d.closing :: rest) =
      some (d.closing :: (s.reverse ++ passed), rest) := by
  rw [leaveLevel_append_of_balanced hd hs, leaveLevel_leave_zero hd]

namespace Place

/-- A jump from the beginning of a group leads to just after its end. -/
lemma afterPartner_forward (hd : d.opening ≠ d.closing) {s : List α} (hs : d.Balanced s)
    (behind rest : List α) :
    afterPartner d .forward ⟨behind, d.opening :: (s ++ d.closing :: rest)⟩ =
      some ⟨d.closing :: (s.reverse ++ d.opening :: behind), rest⟩ := by
  simp only [afterPartner, leaveLevel_of_balanced hd hs, Option.map_some]

/-- A jump back from the end of a group leads to just after its beginning. -/
lemma afterPartner_backward (hd : d.opening ≠ d.closing) {s : List α} (hs : d.Balanced s)
    (behind rest : List α) :
    afterPartner d .backward ⟨s.reverse ++ d.opening :: behind, d.closing :: rest⟩ =
      some ⟨d.opening :: behind, s ++ d.closing :: rest⟩ := by
  have hwalk := leaveLevel_of_balanced (d := d.swap) hd.symm hs.reverse (d.closing :: rest) behind
  simp only [swap, List.reverse_reverse] at hwalk
  simp only [afterPartner, hwalk]

/-! ### Places in a text -/

/-- The text that a place is in. -/
def text (place : Place α) : List α := place.behind.reverse ++ place.ahead

/-- A jump stays in the text. -/
lemma text_of_afterPartner {direction : Direction} {place place' : Place α}
    (h : place.afterPartner d direction = some place') : place'.text = place.text := by
  obtain ⟨behind, ahead⟩ := place
  cases direction with
  | forward =>
    cases ahead with
    | nil => cases h
    | cons x ahead =>
      obtain ⟨⟨passed, rest⟩, hwalk, rfl⟩ := Option.map_eq_some_iff.mp h
      obtain ⟨inside, rfl, rfl⟩ := leaveLevel_eq_some hwalk
      simp [text]
  | backward =>
    simp only [afterPartner] at h
    split at h
    · next hwalk =>
      cases h
      obtain ⟨inside, hpassed, rfl⟩ := leaveLevel_eq_some hwalk
      obtain ⟨rfl, rfl⟩ := List.cons.inj hpassed
      simp [text]
    · cases h

/-- In a balanced text a jump forward from an opening delimiter finds its partner. -/
lemma exists_afterPartner_forward (hd : d.opening ≠ d.closing) {behind ahead : List α}
    (h : d.Balanced (text ⟨behind, d.opening :: ahead⟩)) :
    ∃ place, afterPartner d .forward ⟨behind, d.opening :: ahead⟩ = some place := by
  obtain ⟨inside, rest, hinside, rfl⟩ := h.exists_of_append_opening hd
  exact ⟨_, afterPartner_forward hd hinside behind rest⟩

/-- In a balanced text a jump back from a closing delimiter finds its partner. -/
lemma exists_afterPartner_backward (hd : d.opening ≠ d.closing) {behind ahead : List α}
    (h : d.Balanced (text ⟨behind, d.closing :: ahead⟩)) :
    ∃ place, afterPartner d .backward ⟨behind, d.closing :: ahead⟩ = some place := by
  have hreverse : d.swap.Balanced (ahead.reverse ++ d.swap.opening :: behind) := by
    have hswap := h.reverse
    rw [text, List.reverse_append, List.reverse_reverse, List.reverse_cons,
      List.append_assoc] at hswap
    exact hswap
  obtain ⟨inside, rest, hinside, rfl⟩ := hreverse.exists_of_append_opening hd.symm
  have hback := afterPartner_backward hd hinside.reverse rest ahead
  rw [List.reverse_reverse] at hback
  exact ⟨_, hback⟩

end Place

/-! ### The balance check -/

namespace Delimiters

/-- If the check reports nothing, the text closes the groups that were waiting. -/
lemma closes_of_firstUnmatchedFrom {index : Nat} {waiting : List Nat} {text : List α}
    (h : d.firstUnmatchedFrom index waiting text = none) : d.Closes waiting.length text := by
  fun_induction firstUnmatchedFrom d index waiting text with
  | case1 _ waiting =>
    have hnil : waiting = [] := by simpa using h
    subst hnil
    exact Balanced.nil
  | case2 _ _ _ ih => exact closes_opening_cons (ih h)
  | case3 => cases h
  | case4 _ _ _ _ _ ih => exact ⟨[], _, .nil, ih h, rfl⟩
  | case5 _ _ _ _ hopen hclose ih =>
    have hsymbol : d.Balanced [_] := .symbol hopen hclose .nil
    exact hsymbol.closes_append (ih h)

/-- The check lays an opening delimiter onto those that wait. -/
lemma firstUnmatchedFrom_opening (index : Nat) (waiting : List Nat) (text : List α) :
    d.firstUnmatchedFrom index waiting (d.opening :: text) =
      d.firstUnmatchedFrom (index + 1) (index :: waiting) text := by
  cases waiting <;> simp [firstUnmatchedFrom]

/-- The check lets a closing delimiter take away the innermost one that waits. -/
lemma firstUnmatchedFrom_closing (hd : d.opening ≠ d.closing) (index first : Nat)
    (waiting : List Nat) (text : List α) :
    d.firstUnmatchedFrom index (first :: waiting) (d.closing :: text) =
      d.firstUnmatchedFrom (index + 1) waiting text := by
  simp [firstUnmatchedFrom, hd.symm]

/-- The check reports a closing delimiter that nothing waits for. -/
lemma firstUnmatchedFrom_closing_nil (hd : d.opening ≠ d.closing) (index : Nat)
    (text : List α) :
    d.firstUnmatchedFrom index [] (d.closing :: text) = some (.closing, index) := by
  simp [firstUnmatchedFrom, hd.symm]

/-- The check passes any symbol that is no delimiter. -/
lemma firstUnmatchedFrom_symbol {x : α} (hopen : x ≠ d.opening) (hclose : x ≠ d.closing)
    (index : Nat) (waiting : List Nat) (text : List α) :
    d.firstUnmatchedFrom index waiting (x :: text) =
      d.firstUnmatchedFrom (index + 1) waiting text := by
  cases waiting <;> simp [firstUnmatchedFrom, hopen, hclose]

/-- The check passes a balanced text with the waiting openings as they were. -/
lemma firstUnmatchedFrom_append (hd : d.opening ≠ d.closing) {s : List α} (hs : d.Balanced s)
    (index : Nat) (waiting : List Nat) (rest : List α) :
    d.firstUnmatchedFrom index waiting (s ++ rest) =
      d.firstUnmatchedFrom (index + s.length) waiting rest := by
  induction hs generalizing index waiting rest with
  | nil => rfl
  | symbol hopen hclose _ ih =>
    rw [List.cons_append, firstUnmatchedFrom_symbol hopen hclose, ih]
    congr 1
    simp only [List.length_cons]
    omega
  | group _ _ ihinside ihtext =>
    rw [List.cons_append, List.append_assoc, firstUnmatchedFrom_opening, ihinside,
      List.cons_append, firstUnmatchedFrom_closing hd, ihtext]
    congr 1
    simp only [List.length_cons, List.length_append]
    omega

/-- The check reports nothing exactly on the balanced texts. -/
theorem firstUnmatched_eq_none_iff (hd : d.opening ≠ d.closing) {text : List α} :
    d.firstUnmatched text = none ↔ d.Balanced text := by
  constructor
  · intro h
    exact closes_of_firstUnmatchedFrom h
  · intro h
    have hpass := firstUnmatchedFrom_append hd h 0 [] []
    rw [List.append_nil] at hpass
    rw [firstUnmatched, hpass]
    rfl

end Delimiters

end TapeTower
