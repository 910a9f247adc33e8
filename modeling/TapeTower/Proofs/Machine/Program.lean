import TapeTower.Proofs.Machine.Carry

/-!
# Structured programs

A balanced text is straight text and loops, put after and into each other. `Program`
is this structure, and `Program.Run` is what a program does, loop by loop and without
a program counter: straight text has its effect, and the body of a loop is repeated
while the current cell is not zero.

The machine, which jumps between brackets that it looks for when it meets them, does
the same. A structured run tells how the text is carried out (`Program.Run.carries`),
and a run of the machine with some fuel follows a structured run, which is found by
induction on the fuel (`Program.exists_run_of_machine_run`). Together they give
`Program.exists_machine_run_iff`.
-/

namespace TapeTower

/-- A text without loop brackets. -/
abbrev Straight := { text : List Char // ∀ c ∈ text, IsPlain c }

namespace Straight

/-- The empty text. -/
def empty : Straight := ⟨[], by simp⟩

/-- One more character in front. -/
def cons (c : Char) (hc : IsPlain c) (s : Straight) : Straight :=
  ⟨c :: s.1, by
    intro x hx
    rcases List.mem_cons.mp hx with rfl | hx
    · exact hc
    · exact s.2 x hx⟩

end Straight

/-- A program whose loops are taken apart: straight text that ends it, or straight text
up to its first loop, the body of this loop and the program after the loop. -/
inductive Program where
  | straight (text : Straight)
  | loop (before : Straight) (body rest : Program)

namespace Program

/-- How a program is written. -/
def text : Program → List Char
  | straight s => s.1
  | loop before body rest => before.1 ++ '[' :: (body.text ++ ']' :: rest.text)

/-! ### Programs and balanced texts -/

/-- A text without loop brackets is balanced. -/
lemma balanced_straight (s : Straight) : Delimiters.loop.Balanced s.1 :=
  Delimiters.balanced_of_forall_ne s.2

/-- The text of a program is balanced. -/
lemma balanced_text (p : Program) : Delimiters.loop.Balanced p.text := by
  induction p with
  | straight s => exact balanced_straight s
  | loop before body rest ihbody ihrest =>
    exact (balanced_straight before).append (.group ihbody ihrest)

/-- A program with one more character in front. -/
def cons (c : Char) (hc : IsPlain c) : Program → Program
  | straight s => straight (s.cons c hc)
  | loop before body rest => loop (before.cons c hc) body rest

lemma text_cons (c : Char) (hc : IsPlain c) (p : Program) : (p.cons c hc).text = c :: p.text := by
  cases p <;> rfl

/-- A balanced text is the text of a program. -/
theorem exists_text_eq {text : List Char} (h : Delimiters.loop.Balanced text) :
    ∃ p : Program, p.text = text := by
  induction h with
  | nil => exact ⟨straight .empty, rfl⟩
  | symbol hopen hclose _ ih =>
    obtain ⟨p, rfl⟩ := ih
    exact ⟨p.cons _ ⟨hopen, hclose⟩, text_cons _ _ p⟩
  | group _ _ ihinside ihtext =>
    obtain ⟨body, rfl⟩ := ihinside
    obtain ⟨rest, rfl⟩ := ihtext
    exact ⟨loop .empty body rest, rfl⟩

/-- The texts that the balance check lets pass are the texts of programs. -/
lemma exists_text_eq_of_firstUnmatched {text : List Char}
    (h : Delimiters.loop.firstUnmatched text = none) : ∃ p : Program, p.text = text :=
  exists_text_eq ((Delimiters.firstUnmatched_eq_none_iff (by decide)).mp h)

/-- The balance check lets the text of a program pass. -/
lemma firstUnmatched_text (p : Program) : Delimiters.loop.firstUnmatched p.text = none :=
  (Delimiters.firstUnmatched_eq_none_iff (by decide)).mpr p.balanced_text

/-! ### Rewriting straight text -/

/-- A program whose straight parts are rewritten. -/
def map (f : Straight → Straight) : Program → Program
  | straight s => straight (f s)
  | loop before body rest => loop (f before) (body.map f) (rest.map f)

/-- Rewriting the straight parts is rewriting the text, if loop brackets divide the text into
parts that are rewritten on their own. -/
lemma text_map {f : Straight → Straight} {g : List Char → List Char} (hf : ∀ s, (f s).1 = g s.1)
    (hg : ∀ (s t : List Char) (c : Char), c = '[' ∨ c = ']' → g (s ++ c :: t) = g s ++ c :: g t)
    (p : Program) : (p.map f).text = g p.text := by
  induction p with
  | straight s => exact hf s
  | loop before body rest ihbody ihrest =>
    rw [map, text, text, ihbody, ihrest, hf, hg _ _ _ (Or.inl rfl), hg _ _ _ (Or.inr rfl)]

/-! ### Structured runs -/

/-- `p.Run m e` says that the program `p`, started with the machine `m`, ends with the
outcome `e`. After its body a loop is run once more, without the text before it. -/
inductive Run : Program → Machine → Ending → Prop
  | straight (s : Straight) (m : Machine) : Run (.straight s) m (m.actAll s.1)
  | fault {before body rest m fault m'}
      (hbefore : Machine.actAll before.1 m = (.error fault, m')) :
      Run (.loop before body rest) m (.error fault, m')
  | skip {before body rest m m₁ e}
      (hbefore : Machine.actAll before.1 m = (.ok (), m₁)) (hcell : m₁.tape.current = 0)
      (hrest : Run rest m₁ e) : Run (.loop before body rest) m e
  | again {before body rest m m₁ m₂ e}
      (hbefore : Machine.actAll before.1 m = (.ok (), m₁)) (hcell : m₁.tape.current ≠ 0)
      (hbody : Run body m₁ (.ok (), m₂)) (hagain : Run (.loop .empty body rest) m₂ e) :
      Run (.loop before body rest) m e
  | faultInside {before body rest m m₁ fault m₂}
      (hbefore : Machine.actAll before.1 m = (.ok (), m₁)) (hcell : m₁.tape.current ≠ 0)
      (hbody : Run body m₁ (.error fault, m₂)) :
      Run (.loop before body rest) m (.error fault, m₂)

/-- A structured run tells how the text of the program is carried out. -/
theorem Run.carries {p : Program} {m : Machine} {e : Ending} (h : p.Run m e) :
    Carries .none p.text m e := by
  induction h with
  | straight s m => exact carries_actAll s.2 m
  | @fault before _ _ m _ _ hbefore =>
    have hs := carries_actAll before.2 m
    rw [hbefore] at hs
    exact hs.append_of_fault _
  | @skip before body _ m _ _ hbefore hcell _ ih =>
    have hs := carries_actAll before.2 m
    rw [hbefore] at hs
    exact hs.append (carries_loop_skip body.balanced_text hcell ih)
  | @again before body _ m _ _ _ hbefore hcell _ _ ihbody ihagain =>
    have hs := carries_actAll before.2 m
    rw [hbefore] at hs
    exact hs.append (carries_loop_again body.balanced_text hcell ihbody ihagain)
  | @faultInside before body _ m _ _ _ hbefore hcell _ ih =>
    have hs := carries_actAll before.2 m
    rw [hbefore] at hs
    exact hs.append (carries_loop_fault body.balanced_text hcell ih)

/-! ### Runs of the machine are structured -/

/-- The run of the machine goes on as the outcome of a piece of the program says: with
no more fuel than before from behind the piece, or it ends with the fault. -/
def GoesOn (fuel : Nat) (halt : Halt) (place : Place Char) : Ending → Prop
  | (.ok (), m) => ∃ left ≤ fuel, m.run left place = some halt
  | (.error fault, m) => halt = ⟨.error fault, m⟩

/-- More fuel goes on as well. -/
lemma GoesOn.mono {fuel fuel' : Nat} {halt : Halt} {place : Place Char} {e : Ending}
    (h : GoesOn fuel halt place e) (hle : fuel ≤ fuel') : GoesOn fuel' halt place e := by
  rcases e with ⟨_ | _, m⟩
  · exact h
  · obtain ⟨left, hleft, hrun⟩ := h
    exact ⟨left, Nat.le_trans hleft hle, hrun⟩

/-- A run of the machine that starts in front of straight text carries it out. -/
lemma goesOn_actAll {fuel : Nat} {behind ahead text : List Char} {m : Machine} {halt : Halt}
    (htext : ∀ c ∈ text, IsPlain c) (h : m.run fuel ⟨behind, text ++ ahead⟩ = some halt) :
    GoesOn fuel halt ⟨text.reverse ++ behind, ahead⟩ (m.actAll text) := by
  induction text generalizing fuel behind m with
  | nil => exact ⟨fuel, Nat.le_refl fuel, h⟩
  | cons c text ih =>
    cases fuel with
    | zero => cases h
    | succ fuel =>
      rw [Machine.run, List.cons_append, Machine.step_cons_of_isPlain (htext c (by simp))] at h
      rw [Machine.actAll]
      rcases hact : m.act c with ⟨_ | _, m'⟩
      · rw [hact] at h
        exact (Option.some.inj h).symm
      · rw [hact] at h
        have hrest := ih (fun x hx => htext x (by simp [hx])) h
        rw [List.reverse_cons, List.append_assoc]
        exact hrest.mono (Nat.le_succ fuel)

/-- A run of the machine that starts in front of the text of a program follows a
structured run. -/
theorem exists_run_of_machine_run {fuel : Nat} {p : Program} {behind ahead : List Char}
    {m : Machine} {halt : Halt} (h : m.run fuel ⟨behind, p.text ++ ahead⟩ = some halt) :
    ∃ e, p.Run m e ∧ GoesOn fuel halt ⟨p.text.reverse ++ behind, ahead⟩ e := by
  induction fuel using Nat.strong_induction_on generalizing p behind ahead m with
  | _ fuel ih =>
    cases p with
    | straight s => exact ⟨_, .straight s m, goesOn_actAll s.2 h⟩
    | loop before body rest =>
      rw [text, List.append_assoc] at h
      have hbefore := goesOn_actAll before.2 h
      rcases hact : m.actAll before.1 with ⟨fault | _, m₁⟩
      · rw [hact] at hbefore
        exact ⟨_, .fault hact, hbefore⟩
      · rw [hact] at hbefore
        obtain ⟨fuel₁, hle₁, hrun₁⟩ := hbefore
        cases fuel₁ with
        | zero => cases hrun₁
        | succ fuel₁ =>
          rw [List.cons_append, List.append_assoc, List.cons_append, Machine.run,
            Machine.step_loop_begin body.balanced_text] at hrun₁
          by_cases hcell : m₁.tape.current = 0
          · rw [if_pos hcell] at hrun₁
            obtain ⟨e, hrest, hon⟩ := ih fuel₁ (by omega) hrun₁
            refine ⟨e, .skip hact hcell hrest, ?_⟩
            simpa [text] using hon.mono (show fuel₁ ≤ fuel by omega)
          · rw [if_neg hcell] at hrun₁
            obtain ⟨e₂, hbody, hon₂⟩ := ih fuel₁ (by omega) hrun₁
            rcases e₂ with ⟨fault | _, m₂⟩
            · exact ⟨_, .faultInside hact hcell hbody, hon₂⟩
            · -- The end of the body is as good as the beginning of the loop, with less fuel.
              obtain ⟨fuel₂, hle₂, hrun₂⟩ := hon₂
              have hloop : m₂.run fuel₂ ⟨before.1.reverse ++ behind,
                  (loop .empty body rest).text ++ ahead⟩ = some halt := by
                cases fuel₂ with
                | zero => cases hrun₂
                | succ fuel₂ =>
                  rw [Machine.run, Machine.step_loop_end body.balanced_text] at hrun₂
                  simpa [Machine.run, text, Straight.empty] using hrun₂
              obtain ⟨e, hagain, hon⟩ := ih fuel₂ (by omega) hloop
              refine ⟨e, .again hact hcell hbody hagain, ?_⟩
              simpa [text, Straight.empty] using hon.mono (show fuel₂ ≤ fuel by omega)

/-- The machine ends a program as the structured run does, and only then. -/
theorem exists_machine_run_iff {p : Program} {m : Machine} {halt : Halt} :
    (∃ fuel, m.run fuel ⟨[], p.text⟩ = some halt) ↔ ∃ e, p.Run m e ∧ halt = Ending.halt e := by
  constructor
  · rintro ⟨fuel, hrun⟩
    rw [← List.append_nil p.text] at hrun
    obtain ⟨e, hp, hon⟩ := exists_run_of_machine_run hrun
    refine ⟨e, hp, ?_⟩
    rcases e with ⟨_ | _, m'⟩
    · exact hon
    · obtain ⟨left, -, hleft⟩ := hon
      cases left with
      | zero => cases hleft
      | succ left =>
        have hend := Configuration.haltsWith_nil (p.text.reverse ++ []) m'
        unfold Configuration.HaltsWith at hend
        rw [Machine.run, hend] at hleft
        exact (Option.some.inj hleft).symm
  · rintro ⟨e, hp, rfl⟩
    obtain ⟨u, hreach, -, hhalt⟩ := hp.carries.exists_haltsWith
    exact Configuration.exists_run_iff.mpr ⟨u, hreach.reaches, hhalt⟩

end Program

end TapeTower
