import TapeTower.Proofs.Alpha.Passes
import TapeTower.Proofs.Machine.Output
import TapeTower.Proofs.Machine.Transfer

/-!
# What single tokens do to a tape

A token that stands alone is lowered to its program text, and this does to the tape what the token
says, whatever the numbers in the cells are. `Rewrites` is said of a text, such as that of a token,
which takes one tape to another and touches nothing else.

* A token of a family carries the current cell over to the one at its distance, if there is such a
  cell (`exists_rewrites_transfer`).
* A token that sets a cell stores the value of its numeral there, modulo `2 ^ 32`
  (`exists_rewrites_set`).
-/

namespace TapeTower.Alpha

/-! ### Texts of one token -/

/-- The numeral `1`, which a missing argument stands for, has the value 1. -/
lemma value_getD_one (numeral : Option Numeral) :
    (numeral.getD .one).value = numeral.elim 1 Numeral.value := by
  cases numeral with
  | none => rfl
  | some numeral => rfl

/-- A text that is one token is lowered to the program text of this token. -/
lemma lower_of_tokens_eq_singleton {text : List Char} {token : Token Numeral} {n : UInt32}
    (htokens : tokens text = [token]) (hcount : token.verb.count token.argument = .ok n) :
    lower text = .ok (Token.code ⟨token.verb, n⟩) := by
  rw [lower_eq_pass, pass_eq_ok_iff, htokens]
  exact ⟨[Token.code ⟨token.verb, n⟩], .cons (Token.lower_eq_ok_iff.mpr ⟨n, hcount, rfl⟩) .nil,
    List.flatten_singleton⟩

/-- A text that is one token fails if the token cannot have its argument. -/
lemma lower_eq_error_of_tokens_eq_singleton {text : List Char} {token : Token Numeral}
    {fault : Fault} (htokens : tokens text = [token])
    (hcount : token.verb.count token.argument = .error fault) : lower text = .error fault := by
  have hlower : Token.lower Template.standard token = .error fault :=
    bind_eq_error_iff.mpr (Or.inl hcount)
  rw [lower_eq_pass, pass, passWith, htokens, List.mapM_cons, hlower]
  rfl

/-! ### Tapes before and after -/

/-- The text is lowered to a program which ends well and turns the tape `t` into the tape `t'`. It
reads nothing and prints nothing. -/
def Rewrites (text : List Char) (t : Tape) (input : Input) (sink : Sink) (t' : Tape) : Prop :=
  ∃ code, lower text = .ok code ∧
    ∃ fuel, execute fuel code 0 t input sink = some ⟨.ok "", ⟨t', input, sink, ""⟩⟩

variable {t t' : Tape} {input : Input} {sink : Sink}

/-- A text that is one token rewrites a tape as the program text of the token does. -/
lemma rewrites_of_carries {text : List Char} {token : Token Numeral} {n : UInt32}
    (htokens : tokens text = [token]) (hcount : token.verb.count token.argument = .ok n)
    (hbegin : token.verb ≠ .instruction '[') (hend : token.verb ≠ .instruction ']')
    (hsink : sink.NeverFails)
    (hrun : Carries .free (Token.code ⟨token.verb, n⟩) ⟨t, input, sink, ""⟩
      (.ok (), ⟨t', input, sink, ""⟩)) : Rewrites text t input sink t' := by
  have hcode : Delimiters.loop.Balanced (Token.code ⟨token.verb, n⟩) :=
    balanced_code_of_ne hbegin hend
  refine ⟨_, lower_of_tokens_eq_singleton htokens hcount, ?_⟩
  have hexecute := exists_execute_of_carries hcode hrun
  rwa [Ending.halt_of_neverFails hsink] at hexecute

/-- A token of a family over a distance of 1 up to the largest number of a cell empties the current
cell into the one that lies so far away in its direction. Without a numeral the distance is 1. All
other cells and the cursor stay as they are. -/
theorem exists_rewrites_transfer (t : Tape) (input : Input) (hsink : sink.NeverFails)
    (family : Family) {direction : Direction} (distance : Option Numeral) {n j : Nat}
    (hn : distance.elim 1 Numeral.value = n) (hpos : n ≠ 0) (hle : n ≤ largest)
    (h : Apart n t.cursor j direction) (hj : j < t.size) :
    ∃ t', Rewrites (family.letter :: direction.letter :: distance.elim [] Numeral.digits) t input
        sink t' ∧
      t'.cursor = t.cursor ∧ t'.get? t.cursor = some 0 ∧
      t'.get? j = (t.get? j).map (fun there => family.combine there t.current) ∧
      ∀ index, index ≠ t.cursor → index ≠ j → t'.get? index = t.get? index := by
  obtain ⟨there, hthere⟩ := t.exists_get?_eq_some hj
  refine ⟨t.carry family.combine j, ?_, rfl, ?_, ?_, ?_⟩
  · have hknown : (Verb.transfer family direction).IsKnown := trivial
    have hcount : (distance.getD .one).exact = .ok (UInt32.ofNat n) := by
      rw [← hn, ← value_getD_one] at hle ⊢
      exact Numeral.exact_of_le hle
    refine rewrites_of_carries (tokens_render_elim hknown distance) hcount (by simp) (by simp)
      hsink ?_
    have hvalue := toNat_ofNat_of_le_largest hle
    exact carries_transfer (m := ⟨t, input, sink, ""⟩) (by rwa [hvalue]) (by rwa [hvalue]) hj
  · rw [Tape.get?_carry hj, if_pos rfl]
  · rw [Tape.get?_carry hj, if_neg (h.ne hpos), if_pos rfl, hthere]
    rfl
  · intro index hcursor hindex
    rw [Tape.get?_carry hj, if_neg hcursor, if_neg hindex]

/-- `sb02` subtracts a 5 from the 3 that is two cells before it. -/
theorem exists_rewrites_transfer_wraps :
    Apart 2 2 0 .backward ∧ Sink.unlimited.NeverFails ∧
      ∃ t', Rewrites ['s', 'b', '0', '2'] ⟨#[3, 1, 5], 2, by decide⟩ [] Sink.unlimited t' ∧
        t'.cursor = 2 ∧ t'.get? 2 = some 0 ∧ t'.get? 0 = some 4294967294 ∧
        t'.get? 1 = some 1 := by
  have hapart : Apart 2 2 0 .backward := rfl
  have hsink : Sink.unlimited.NeverFails := ⟨rfl, rfl⟩
  obtain ⟨t', hrewrites, hcursor, hhere, hthere, hother⟩ :=
    exists_rewrites_transfer ⟨#[3, 1, 5], 2, by decide⟩ [] hsink .sub
      (some ⟨['0', '2'], by decide, List.all_eq_true.mp rfl⟩) rfl (by decide) (by decide) hapart
      (by decide)
  exact ⟨hapart, hsink, t', hrewrites, hcursor, hhere, hthere, hother 1 (by decide) (by decide)⟩

/-- A token that sets the current cell stores the value of its numeral there, modulo `2 ^ 32`, and
1 if it has none, whatever is in the cell before. All other cells and the cursor stay as they
are. -/
theorem exists_rewrites_set (t : Tape) (input : Input) (hsink : sink.NeverFails)
    (numeral : Option Numeral) :
    ∃ t', Rewrites ('=' :: numeral.elim [] Numeral.digits) t input sink t' ∧
      t'.cursor = t.cursor ∧ t'.current.toNat = numeral.elim 1 Numeral.value % cellModulus ∧
      ∀ index, index ≠ t.cursor → t'.get? index = t.get? index := by
  refine ⟨t.setCurrent (numeral.getD .one).wrapping, ?_, ?_, ?_, ?_⟩
  · have hknown : Verb.set.IsKnown := trivial
    exact rewrites_of_carries (tokens_render_elim hknown numeral) rfl (by simp) (by simp) hsink
      (carries_set _ ⟨t, input, sink, ""⟩)
  · exact t.cursor_setCurrent _
  · rw [Tape.current_setCurrent, Numeral.toNat_wrapping, value_getD_one]
  · intro index hcursor
    rw [Tape.get?_setCurrent, if_neg hcursor]

/-- `=04294967298` puts a 2 in place of a 7. -/
theorem exists_rewrites_set_wraps :
    Sink.unlimited.NeverFails ∧
      ∃ t', Rewrites "=04294967298".toList ⟨#[7, 1], 0, by decide⟩ [] Sink.unlimited t' ∧
        t'.cursor = 0 ∧ t'.current.toNat = 2 ∧ t'.get? 1 = some 1 := by
  have hsink : Sink.unlimited.NeverFails := ⟨rfl, rfl⟩
  obtain ⟨t', hrewrites, hcursor, hcurrent, hother⟩ :=
    exists_rewrites_set ⟨#[7, 1], 0, by decide⟩ [] hsink
      (some ⟨"04294967298".toList, by decide, List.all_eq_true.mp rfl⟩)
  exact ⟨hsink, t', hrewrites, hcursor, hcurrent, hother 1 (by decide)⟩

end TapeTower.Alpha
