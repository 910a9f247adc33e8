import TapeTower.Encoder
import TapeTower.Proofs.Machine.Layout

/-!
# The naive encoder prints its text

The program of the naive encoder fills the cells of a text one after the other, the line end behind
them, and goes back to cell 0 to print the row. While it fills, the cells in front of the cursor are
those of the characters that it has dealt with, and all others are zero: so the state after a part
of the text is known from this part alone (`carries_fill`). No move is stopped, since the row and
the zero behind it fit on the tape.
-/

namespace TapeTower.Encoder

open Machine Alpha

variable {m : Machine} {text : List Char}

/-! ### A text in cells -/

/-- The numbers in the cells when the characters of a text stand in them from cell 0 on, and all
others are zero. -/
def codes (text : List Char) (i : Nat) : UInt32 :=
  text[i]?.elim 0 fun c => UInt32.ofNat c.toNat

lemma codes_of_lt {i : Nat} (h : i < text.length) :
    codes text i = UInt32.ofNat text[i].toNat := by
  rw [codes, List.getElem?_eq_getElem h, Option.elim_some]

lemma codes_length (text : List Char) : codes text text.length = 0 := by
  rw [codes, List.getElem?_eq_none (Nat.le_refl _), Option.elim_none]

/-- One more character takes the first cell behind the text. -/
lemma update_codes (text : List Char) (c : Char) :
    Function.update (codes text) text.length (UInt32.ofNat c.toNat) = codes (text ++ [c]) := by
  funext i
  rcases Nat.lt_trichotomy i text.length with hlt | rfl | hgt
  · rw [Function.update_of_ne (Nat.ne_of_lt hlt), codes, codes, List.getElem?_append_left hlt]
  · rw [Function.update_self, codes, List.getElem?_concat_length, Option.elim_some]
  · have hbehind : (text ++ [c]).length ≤ i := by
      rw [List.length_append, List.length_singleton]
      exact hgt
    rw [Function.update_of_ne (Nat.ne_of_gt hgt), codes, codes,
      List.getElem?_eq_none (Nat.le_of_lt hgt), List.getElem?_eq_none hbehind]

/-! ### Filling the cells -/

/-- The program text that fills a cell, and goes on to the next one. -/
def fillCell (c : Char) : List Char := times c.toNat '+' ++ ['>']

lemma naive_eq (text : List Char) :
    naive text =
      text.flatMap fillCell ++ (times 10 '+' ++ (times text.length '<' ++ printText)) := by
  simp only [naive, List.append_assoc]
  rfl

/-- Increments put a character into the first cell behind a text. -/
lemma carries_fill (h : text.length < m.tape.size) (c : Char) :
    Carries .free (times c.toNat '+') (m.lay text.length (codes text))
      (.ok (), m.lay text.length (codes (text ++ [c]))) := by
  have hrun : Carries .free (times c.toNat '+') (m.lay text.length (codes text))
      (.ok (), m.lay text.length (Function.update (codes text) text.length
        (codes text text.length + UInt32.ofNat c.toNat))) := carries_lay_increments h c.toNat
  rwa [codes_length, UInt32.zero_add, update_codes] at hrun

/-- Behind the cells of a text `s` those of a text `t` are filled. -/
theorem carries_fillCells {s t : List Char} (h : (s ++ t).length < m.tape.size) :
    Carries .free (t.flatMap fillCell) (m.lay s.length (codes s))
      (.ok (), m.lay (s ++ t).length (codes (s ++ t))) := by
  induction t generalizing s with
  | nil =>
    rw [List.append_nil]
    exact carries_nil _
  | cons c t ih =>
    rw [List.append_cons] at h ⊢
    have hlength : (s ++ [c]).length = s.length + 1 := by simp
    have hsize : s.length + 1 < m.tape.size := by
      rw [← hlength]
      exact Nat.lt_of_le_of_lt (by simp) h
    have hright : Carries .free ['>'] (m.lay s.length (codes (s ++ [c])))
        (.ok (), m.lay (s ++ [c]).length (codes (s ++ [c]))) := by
      rw [hlength]
      exact carries_lay_right (n := 1) hsize
    exact ((carries_fill (Nat.lt_of_succ_lt hsize) c).append hright).append (ih h)

/-! ### The whole program -/

/-- On a tape of zeros the program of a text fills the cells of the text and of a line end, and
prints them up to the first zero. -/
theorem carries_naive (hsink : m.sink.NeverFails) (hsize : text.length + 2 ≤ m.tape.size) :
    Carries .free (naive text) (m.lay 0 fun _ => 0)
      (.ok (), (m.say (beforeNul (text ++ ['\n']))).lay
        (beforeNul (text ++ ['\n'])).length (codes (text ++ ['\n']))) := by
  have hfill : Carries .free (text.flatMap fillCell) (m.lay 0 fun _ => 0)
      (.ok (), m.lay text.length (codes text)) :=
    carries_fillCells (s := []) (by rw [List.nil_append]; omega)
  have hline : Carries .free (times 10 '+') (m.lay text.length (codes text))
      (.ok (), m.lay text.length (codes (text ++ ['\n']))) :=
    carries_fill (by omega) '\n'
  have hback : Carries .free (times text.length '<')
      (m.lay text.length (codes (text ++ ['\n']))) (.ok (), m.lay 0 (codes (text ++ ['\n']))) := by
    have hrun : Carries .free (times text.length '<') (m.lay text.length (codes (text ++ ['\n'])))
        (.ok (), m.lay (text.length - text.length) (codes (text ++ ['\n']))) :=
      carries_lay_left (Nat.le_refl _) (by omega)
    rwa [Nat.sub_self] at hrun
  have hprint : Carries .free printText (m.lay 0 (codes (text ++ ['\n'])))
      (.ok (), (m.say (beforeNul (text ++ ['\n']))).lay
        (0 + (beforeNul (text ++ ['\n'])).length) (codes (text ++ ['\n']))) := by
    refine carries_printRow hsink ?_ ?_ ?_
    · rw [Nat.zero_add, List.length_append, List.length_singleton]
      omega
    · intro k hk
      rw [Nat.zero_add, codes_of_lt hk]
    · rw [Nat.zero_add, codes_length]
  rw [Nat.zero_add] at hprint
  rw [naive_eq]
  exact hfill.append (hline.append (hback.append hprint))

lemma balanced_naive (text : List Char) : Delimiters.loop.Balanced (naive text) := by
  have hfill : Delimiters.loop.Balanced (text.flatMap fillCell) := by
    induction text with
    | nil => exact .nil
    | cons c text ih =>
      have hcell : Delimiters.loop.Balanced (fillCell c) :=
        (balanced_replicate (by simp [IsPlain]) _).append (.symbol (by decide) (by decide) .nil)
      exact hcell.append ih
  have hline : Delimiters.loop.Balanced (times 10 '+') := balanced_replicate (by simp [IsPlain]) _
  have hback : Delimiters.loop.Balanced (times text.length '<') :=
    balanced_replicate (by simp [IsPlain]) _
  rw [naive_eq]
  exact hfill.append (hline.append (hback.append (.group balanced_printBody .nil)))

/-- On a tape of zeros that is long enough, the program of the naive encoder ends well and prints
the text with a line end behind it, up to the first character that is zero. It reads nothing. -/
theorem exists_execute_naive (text : List Char) {tape : Tape} {input : Input} {sink : Sink}
    (hsize : text.length + 2 ≤ tape.size)
    (hzero : ∀ index < tape.size, tape.get? index = some 0) (hcursor : tape.cursor = 0)
    (hsink : sink.NeverFails) :
    (∃ fuel halt, execute fuel (naive text) 0 tape input sink = some halt ∧
      halt.result = .ok (String.ofList (beforeNul (text ++ ['\n']))) ∧
      halt.machine.sink.written = sink.written ++ String.ofList (beforeNul (text ++ ['\n'])) ∧
      halt.machine.input = input) ∧
    ((∀ c ∈ text, c.toNat ≠ 0) → beforeNul (text ++ ['\n']) = text ++ ['\n']) := by
  constructor
  · let m : Machine := ⟨tape, input, sink, ""⟩
    have hlay : m.lay 0 (fun _ => 0) = m := by
      have htape : tape.lay 0 (fun _ => 0) = tape := Tape.lay_eq_self hcursor hzero
      simp only [m, lay, htape]
    have hrun : Carries .free (naive text) (m.lay 0 fun _ => 0)
        (.ok (), (m.say (beforeNul (text ++ ['\n']))).lay
          (beforeNul (text ++ ['\n'])).length (codes (text ++ ['\n']))) :=
      carries_naive hsink hsize
    rw [hlay] at hrun
    obtain ⟨fuel, hexecute⟩ := exists_execute_of_carries (balanced_naive text) hrun
    have hnever : ((m.say (beforeNul (text ++ ['\n']))).lay
        (beforeNul (text ++ ['\n'])).length (codes (text ++ ['\n']))).sink.NeverFails := hsink
    rw [Ending.halt_of_neverFails hnever] at hexecute
    refine ⟨fuel, _, hexecute, ?_, rfl, rfl⟩
    simp [m, say, lay, Except.map]
  · intro hnul
    refine beforeNul_eq_self fun c hc => ?_
    rcases List.mem_append.mp hc with hc | hc
    · exact hnul c hc
    · obtain rfl := List.mem_singleton.mp hc
      decide

/-- Two characters that are not zero, the second one not ASCII, and a zero: the line end behind it
is not printed. -/
theorem exists_execute_naive_nul :
    let text := ['A', 'é', Char.ofNat 0]
    text.length + 2 ≤ (Tape.blank 5).size ∧
      (∀ index < (Tape.blank 5).size, (Tape.blank 5).get? index = some 0) ∧
      ∃ fuel halt, execute fuel (naive text) 0 (Tape.blank 5) (Input.ofBytes [7]) Sink.unlimited =
          some halt ∧
        halt.result = .ok "Aé" ∧ halt.machine.sink.written = "Aé" ∧
        halt.machine.input = Input.ofBytes [7] := by
  intro text
  have hsize : text.length + 2 ≤ (Tape.blank 5).size := by decide
  have hzero : ∀ index < (Tape.blank 5).size, (Tape.blank 5).get? index = some 0 := by decide
  exact ⟨hsize, hzero, (exists_execute_naive text hsize hzero rfl ⟨rfl, rfl⟩).1⟩

end TapeTower.Encoder
