import TapeTower.Proofs.Alpha.Lowering
import TapeTower.Proofs.Machine.Execution

/-!
# Running the program texts of tokens

What the program text of a token does, provided that no move is stopped by the ends of the
tape: repeated instructions add up, the loop `[-]` clears a cell, and the loop of a family
carries the current cell over to another one, unit by unit.

A loop of the last two kinds counts its cell down. By `carries_countdown` it is enough to
know what its body does: the result that is still to come does not change, and it is
there when the cell is zero.
-/

namespace TapeTower

open Alpha

variable {m : Machine}

/-! ### Counting down -/

/-- A loop whose body takes one from the current cell and leaves the result as it is comes
to the result. -/
theorem carries_countdown {guard : Guard} {body : List Char}
    (hbody : Delimiters.loop.Balanced body) (P : Machine → Prop) (step result : Machine → Machine)
    (hstep : ∀ m, P m → m.tape.current ≠ 0 → Carries guard body m (.ok (), step m))
    (hP : ∀ m, P m → P (step m))
    (hcurrent : ∀ m, P m → (step m).tape.current = m.tape.current - 1)
    (hresult : ∀ m, P m → result (step m) = result m)
    (hend : ∀ m, P m → m.tape.current = 0 → result m = m) (hm : P m) :
    Carries guard (loopText body) m (.ok (), result m) := by
  induction hn : m.tape.current.toNat generalizing m with
  | zero =>
    have hzero : m.tape.current = 0 := UInt32.toNat_inj.mp hn
    rw [hend m hm hzero]
    exact carries_loop_skip hbody hzero (carries_nil m)
  | succ n ih =>
    have hne : m.tape.current ≠ 0 := by
      intro hzero
      rw [hzero] at hn
      cases hn
    have hpred : (step m).tape.current.toNat = n := by
      rw [hcurrent m hm, UInt32.toNat_sub_of_le]
      · rw [hn]
        rfl
      · rw [UInt32.le_iff_toNat_le, hn]
        exact Nat.succ_le_succ (Nat.zero_le n)
    rw [← hresult m hm]
    exact carries_loop_again hbody hne (hstep m hm hne) (ih (hP m hm) hpred)

/-! ### Repeated instructions -/

/-- An instruction that leads through a sequence of machines leads to its end. -/
lemma carries_replicate {c : Char} (hc : IsPlain c) {f : Nat → Machine} {n : Nat}
    (hfree : ∀ k < n, ¬ (f k).Clamps c) (hact : ∀ k < n, (f k).act c = (.ok (), f (k + 1))) :
    Carries .free (List.replicate n c) (f 0) (.ok (), f n) := by
  induction n with
  | zero => exact carries_nil (f 0)
  | succ n ih =>
    rw [List.replicate_succ']
    have hlast : Carries .free [c] (f n) ((f n).act c) :=
      carries_singleton hc (hfree n (Nat.lt_succ_self n))
    rw [hact n (Nat.lt_succ_self n)] at hlast
    exact (ih (fun k hk => hfree k (Nat.lt_succ_of_lt hk))
      fun k hk => hact k (Nat.lt_succ_of_lt hk)).append hlast

namespace Machine

/-- The machine with another number in its current cell. -/
def store (m : Machine) (v : UInt32) : Machine := { m with tape := m.tape.setCurrent v }

@[simp] lemma store_store (m : Machine) (v w : UInt32) : (m.store v).store w = m.store w := by
  simp [store]

@[simp] lemma store_current (m : Machine) : m.store m.tape.current = m := by
  simp [store]

@[simp] lemma current_store (m : Machine) (v : UInt32) : (m.store v).tape.current = v := by
  simp [store]

lemma act_increment (m : Machine) : m.act '+' = (.ok (), m.store (m.tape.current + 1)) := rfl

lemma act_decrement (m : Machine) : m.act '-' = (.ok (), m.store (m.tape.current - 1)) := rfl

lemma not_clamps {c : Char} (hleft : c ≠ '<') (hright : c ≠ '>') (m : Machine) :
    ¬ m.Clamps c := by
  simp [Clamps, hleft, hright]

end Machine

open Machine

/-- Repeated increments add their number. -/
lemma carries_increments (n : Nat) (m : Machine) :
    Carries .free (List.replicate n '+') m
      (.ok (), m.store (m.tape.current + UInt32.ofNat n)) := by
  have hrun := carries_replicate (c := '+') (n := n)
    (f := fun k => m.store (m.tape.current + UInt32.ofNat k)) (by simp [IsPlain])
    (fun k _ => not_clamps (by decide) (by decide) _) (fun k _ => by
      rw [act_increment, current_store, store_store, UInt32.ofNat_add, UInt32.add_assoc]
      rfl)
  simpa using hrun

/-- Repeated decrements take off their number. -/
lemma carries_decrements (n : Nat) (m : Machine) :
    Carries .free (List.replicate n '-') m
      (.ok (), m.store (m.tape.current - UInt32.ofNat n)) := by
  have hrun := carries_replicate (c := '-') (n := n)
    (f := fun k => m.store (m.tape.current - UInt32.ofNat k)) (by simp [IsPlain])
    (fun k _ => not_clamps (by decide) (by decide) _) (fun k _ => by
      rw [act_decrement, current_store, store_store, UInt32.ofNat_add]
      congr 2
      grind)
  simpa using hrun

/-- Repeated moves to the right reach any cell there. -/
lemma carries_right {n : Nat} {m : Machine} (h : m.tape.cursor + n < m.tape.size) :
    Carries .free (List.replicate n '>') m (.ok (), m.goTo (m.tape.cursor + n)) := by
  have hcursor : ∀ k < n, (m.goTo (m.tape.cursor + k)).tape.cursor = m.tape.cursor + k :=
    fun k hk => Tape.cursor_moveTo_of_lt _ (by omega)
  have hrun := carries_replicate (c := '>') (n := n)
    (f := fun k => m.goTo (m.tape.cursor + k)) (by simp [IsPlain])
    (fun k hk => by
      rintro (⟨hc, -⟩ | ⟨-, hlast⟩)
      · cases hc
      · rw [hcursor k hk, goTo, Tape.size_moveTo] at hlast
        omega)
    (fun k hk => by rw [act_right, hcursor k hk, goTo_goTo]; rfl)
  simpa using hrun

/-- Repeated moves to the left reach any cell there. -/
lemma carries_left {n : Nat} {m : Machine} (h : n ≤ m.tape.cursor) :
    Carries .free (List.replicate n '<') m (.ok (), m.goTo (m.tape.cursor - n)) := by
  have hlt := m.tape.cursor_lt_size
  have hcursor : ∀ k < n, (m.goTo (m.tape.cursor - k)).tape.cursor = m.tape.cursor - k :=
    fun k hk => Tape.cursor_moveTo_of_lt _ (by omega)
  have hrun := carries_replicate (c := '<') (n := n)
    (f := fun k => m.goTo (m.tape.cursor - k)) (by simp [IsPlain])
    (fun k hk => by
      rintro (⟨-, hfirst⟩ | ⟨hc, -⟩)
      · rw [hcursor k hk] at hfirst
        omega
      · cases hc)
    (fun k hk => by rw [act_left, hcursor k hk, goTo_goTo]; rfl)
  simpa using hrun

/-! ### Clearing a cell -/

/-- The loop `[-]` clears the current cell. -/
lemma carries_clear (m : Machine) :
    Carries .free clearText m (.ok (), m.store 0) := by
  refine carries_countdown (.symbol (by decide) (by decide) .nil) (fun _ => True)
    (fun m => m.store (m.tape.current - 1)) (fun m => m.store 0) ?_ ?_ ?_ ?_ ?_ trivial
  · intro m _ _
    exact carries_singleton (by simp [IsPlain]) (not_clamps (by decide) (by decide) m)
  · exact fun _ _ => trivial
  · exact fun m _ => m.current_store _
  · exact fun m _ => m.store_store _ _
  · intro m _ hzero
    rw [← hzero, store_current]

/-! ### Carrying a cell over -/

/-- The cell `j` lies `n` cells away from the cell `i`. -/
def Apart (n i j : Nat) : Direction → Prop
  | .forward => j = i + n
  | .backward => i = j + n

lemma Apart.opposite {n i j : Nat} {direction : Direction} (h : Apart n i j direction) :
    Apart n j i direction.opposite := by
  cases direction <;> exact h

/-- Moves over a distance reach the cell that lies so far away. -/
lemma carries_goText {direction : Direction} {n j : Nat} {m : Machine}
    (h : Apart n m.tape.cursor j direction) (hj : j < m.tape.size) :
    Carries .free (goText direction n) m (.ok (), m.goTo j) := by
  cases direction with
  | forward =>
    obtain rfl : j = m.tape.cursor + n := h
    exact carries_right hj
  | backward =>
    have hcursor : m.tape.cursor = j + n := h
    have hrun := carries_left (n := n) (m := m) (by omega)
    rwa [hcursor, Nat.add_sub_cancel] at hrun

/-- The machine with a cell carried over to another one. -/
def Machine.carry (g : UInt32 → UInt32 → UInt32) (j : Nat) (m : Machine) : Machine :=
  { m with tape := m.tape.carry g j }

/-! ### Balanced program texts -/

lemma balanced_replicate {c : Char} (hc : IsPlain c) (n : Nat) :
    Delimiters.loop.Balanced (List.replicate n c) := by
  refine Delimiters.balanced_of_forall_ne fun x hx => ?_
  rwa [List.eq_of_mem_replicate hx]

lemma balanced_goText (direction : Direction) (n : Nat) :
    Delimiters.loop.Balanced (goText direction n) := by
  cases direction <;> exact balanced_replicate (by simp [IsPlain, Direction.moveChar]) n

lemma balanced_clearText : Delimiters.loop.Balanced clearText :=
  .group (balanced_replicate (by simp [IsPlain]) 1) .nil

lemma balanced_carryBody {change : Char} (hchange : IsPlain change) (direction : Direction)
    (n : Nat) : Delimiters.loop.Balanced (carryBody change direction n) :=
  .symbol (by decide) (by decide)
    ((balanced_goText direction n).append
      (.symbol hchange.1 hchange.2 (balanced_goText direction.opposite n)))

/-- The program text of a command is balanced. -/
lemma balanced_family_code (family : Family) (direction : Direction) (n : Nat) :
    Delimiters.loop.Balanced (family.code direction n) := by
  have hloop {change : Char} (hchange : IsPlain change) :
      Delimiters.loop.Balanced (loopText (carryBody change direction n)) :=
    .group (balanced_carryBody hchange direction n) .nil
  cases family with
  | add => exact hloop (by simp [IsPlain])
  | sub => exact hloop (by simp [IsPlain])
  | move =>
    exact (balanced_goText direction n).append
      (balanced_clearText.append ((balanced_goText _ n).append (hloop (by simp [IsPlain]))))

section CarryLoop

variable {direction : Direction} {n j : Nat} {change : Char} {f : UInt32 → UInt32}
  {g : UInt32 → UInt32 → UInt32}

/-- The body of the loop of a family carries over one unit. -/
lemma carries_carryBody (hplain : IsPlain change) (hleft : change ≠ '<') (hright : change ≠ '>')
    (hact : ∀ m : Machine, m.act change = (.ok (), m.store (f m.tape.current)))
    (h : Apart n m.tape.cursor j direction) (hj : j < m.tape.size) :
    Carries .free (carryBody change direction n) m
      (.ok (), { m with tape := m.tape.carryUnit f j }) := by
  let here := m.store (m.tape.current - 1)
  let there := (here.goTo j).store (f (here.goTo j).tape.current)
  have hdown : Carries .free ['-'] m (.ok (), here) :=
    carries_singleton (by simp [IsPlain]) (not_clamps (by decide) (by decide) m)
  have hgo : Carries .free (goText direction n) here (.ok (), here.goTo j) :=
    carries_goText h (by simpa [here, store] using hj)
  have hchange : Carries .free [change] (here.goTo j) (.ok (), there) := by
    have hrun : Carries .free [change] (here.goTo j) ((here.goTo j).act change) :=
      carries_singleton hplain (not_clamps hleft hright (here.goTo j))
    rwa [hact] at hrun
  have hcursor : there.tape.cursor = j :=
    Tape.cursor_moveTo_of_lt _ (by simpa [here, store] using hj)
  have hback : Carries .free (goText direction.opposite n) there
      (.ok (), there.goTo m.tape.cursor) := by
    refine carries_goText (hcursor.symm ▸ h.opposite) ?_
    simpa [there, here, store, goTo] using m.tape.cursor_lt_size
  exact hdown.append (hgo.append (hchange.append hback))

/-- The loop of a family carries the current cell over. -/
lemma carries_carryLoop (hplain : IsPlain change) (hleft : change ≠ '<') (hright : change ≠ '>')
    (hact : ∀ m : Machine, m.act change = (.ok (), m.store (f m.tape.current)))
    (hfg : ∀ a b, g (f a) (b - 1) = g a b) (hg : ∀ a, g a 0 = a)
    (h : Apart n m.tape.cursor j direction) (hj : j < m.tape.size) (hne : j ≠ m.tape.cursor) :
    Carries .free (loopText (carryBody change direction n)) m (.ok (), m.carry g j) := by
  refine carries_countdown (balanced_carryBody hplain direction n)
    (fun m' => m'.tape.cursor = m.tape.cursor ∧ m'.tape.size = m.tape.size)
    (fun m => { m with tape := m.tape.carryUnit f j }) (fun m => m.carry g j)
    ?_ ?_ ?_ ?_ ?_ ⟨rfl, rfl⟩
  · rintro m' ⟨hcursor, hsize⟩ -
    rw [← hcursor] at h
    exact carries_carryBody hplain hleft hright hact h (hsize ▸ hj)
  · rintro m' ⟨hcursor, hsize⟩
    exact ⟨by simpa using hcursor, by simpa using hsize⟩
  · rintro m' ⟨hcursor, hsize⟩
    exact Tape.current_carryUnit (hsize ▸ hj) (hcursor ▸ hne)
  · rintro m' ⟨hcursor, hsize⟩
    simp only [Machine.carry, Tape.carry_carryUnit hfg (hsize ▸ hj) (hcursor ▸ hne)]
  · rintro m' ⟨hcursor, hsize⟩ hzero
    simp only [Machine.carry, Tape.carry_of_current_eq_zero hg (hsize ▸ hj) hzero]

end CarryLoop

/-! ### Families -/

/-- What a family makes of the number in the other cell, given the one in the current cell. -/
def Alpha.Family.combine : Family → (there here : UInt32) → UInt32
  | .add, there, here => there + here
  | .sub, there, here => there - here
  | .move, _, here => here

lemma Apart.ne {n i j : Nat} {direction : Direction} (h : Apart n i j direction) (hn : n ≠ 0) :
    j ≠ i := by
  cases direction with
  | forward =>
    have hj : j = i + n := h
    omega
  | backward =>
    have hi : i = j + n := h
    omega

/-- The program text of a command carries the current cell over as its family says. -/
theorem carries_family_code {family : Family} {direction : Direction} {n j : Nat} {m : Machine}
    (h : Apart n m.tape.cursor j direction) (hn : n ≠ 0) (hj : j < m.tape.size) :
    Carries .free (family.code direction n) m (.ok (), m.carry family.combine j) := by
  cases family with
  | add =>
    exact carries_carryLoop (f := (· + 1)) (by simp [IsPlain]) (by decide) (by decide) act_increment
      (by intro a b; simp only [Family.combine]; grind) (by simp [Family.combine]) h hj (h.ne hn)
  | sub =>
    exact carries_carryLoop (f := (· - 1)) (by simp [IsPlain]) (by decide) (by decide) act_decrement
      (by intro a b; simp only [Family.combine]; grind) (by simp [Family.combine]) h hj (h.ne hn)
  | move =>
    let there := (m.goTo j).store 0
    have hclear : Carries .free clearText (m.goTo j) (.ok (), there) :=
      carries_clear (m.goTo j)
    have hcursor : there.tape.cursor = j := Tape.cursor_moveTo_of_lt _ hj
    have hback : Carries .free (goText direction.opposite n) there
        (.ok (), there.goTo m.tape.cursor) := by
      refine carries_goText (hcursor.symm ▸ h.opposite) ?_
      simpa [there, store, goTo] using m.tape.cursor_lt_size
    have hhome : (there.goTo m.tape.cursor).tape.cursor = m.tape.cursor :=
      Tape.cursor_moveTo_of_lt _ (by simpa [there, store, goTo] using m.tape.cursor_lt_size)
    have hadd : Carries .free (loopText (carryBody '+' direction n))
        (there.goTo m.tape.cursor) (.ok (), (there.goTo m.tape.cursor).carry (· + ·) j) :=
      carries_carryLoop (f := (· + 1)) (by simp [IsPlain]) (by decide) (by decide) act_increment
        (by intro a b; grind) (by simp) (hhome.symm ▸ h)
        (by simpa [there, store, goTo] using hj) (hhome.symm ▸ h.ne hn)
    have hresult : (there.goTo m.tape.cursor).carry (· + ·) j = m.carry Family.move.combine j := by
      have htape := Tape.carry_moveTo_clear (g := (· + ·)) hj (h.ne hn)
      simp only [UInt32.zero_add] at htape
      exact congrArg (fun tape => { m with tape }) htape
    rw [hresult] at hadd
    exact (carries_goText h hj).append (hclear.append (hback.append hadd))

/-! ### Tokens -/

/-- The program text of a token that is no bracket is balanced. -/
lemma balanced_code_of_ne {token : Token UInt32} (hbegin : token.verb ≠ .instruction '[')
    (hend : token.verb ≠ .instruction ']') : Delimiters.loop.Balanced token.code := by
  obtain ⟨verb, argument⟩ := token
  cases verb with
  | instruction char =>
    refine Delimiters.balanced_of_forall_ne fun x hx => ?_
    rw [List.eq_of_mem_replicate hx]
    refine ⟨?_, ?_⟩
    · rintro rfl
      exact hbegin rfl
    · rintro rfl
      exact hend rfl
  | set => exact balanced_clearText.append (balanced_replicate (by simp [IsPlain]) _)
  | transfer family direction =>
    unfold Token.code
    dsimp only
    split
    · exact .nil
    · exact balanced_family_code family direction _

/-- The program text of a token that sets a cell stores its argument there. -/
lemma carries_set (n : UInt32) (m : Machine) :
    Carries .free (Token.code ⟨.set, n⟩) m (.ok (), m.store n) := by
  have hplus := carries_increments n.toNat (m.store 0)
  rw [UInt32.ofNat_toNat, current_store, store_store, UInt32.zero_add] at hplus
  exact (carries_clear m).append hplus

/-- The program text of a token of a family carries the current cell over as the family says. -/
lemma carries_transfer {family : Family} {direction : Direction} {n : UInt32} {j : Nat}
    (h : Apart n.toNat m.tape.cursor j direction) (hn : n.toNat ≠ 0) (hj : j < m.tape.size) :
    Carries .free (Token.code ⟨.transfer family direction, n⟩) m
      (.ok (), m.carry family.combine j) := by
  simp only [Token.code, if_neg hn]
  exact carries_family_code h hn hj

end TapeTower
