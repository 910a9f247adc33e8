import Mathlib.Algebra.BigOperators.Ring.List
import TapeTower.Proofs.Alpha.Passes
import TapeTower.Proofs.Beta.Compilation
import TapeTower.Proofs.Dialect

/-!
# The depth of a text of tokens

In a text of tokens each loop bracket is a token, and nothing else leads to another level. So
the net depth of the text is the sum over its tokens of the levels by which each leads up
(`netDepth_eq_sum_tokens`). In the program that the text is lowered to, a token leads up as often
as its argument says (`netDepth_of_lower`).

The two depths are zero together if all brackets have the same argument, but not in general:
whether a text of tokens is complete is told by its brackets, and not by what these are lowered
to (`Dialect.isComplete_of_lower`).
-/

namespace TapeTower

namespace Alpha

open Delimiters

variable {κ : Type}

/-- The number of levels by which a token leads up each time that it acts. -/
def Token.rise (token : Token κ) : Int :=
  match token.verb with
  | .instruction c => loop.rise c
  | _ => 0

/-- How often a token acts. -/
def Token.times (token : Token Numeral) : Nat :=
  match token.verb.count token.argument with
  | .ok n => n.toNat
  | .error _ => 0

/-- The number of levels by which a token leads up in all. -/
def Token.climb (token : Token Numeral) : Int := token.times * token.rise

/-! ### The tokens of a text -/

/-- The token that a text starts with leads up like the first character of the text. -/
lemma sum_rise_read? (c : Char) (text : List Char) :
    ((Token.read? (c :: text)).toList.map Token.rise).sum = loop.rise c := by
  cases hread : Verb.read? (c :: text) with
  | none =>
    have hc : (Instruction.ofChar? c).isSome = false := by
      by_contra h
      rw [Bool.not_eq_false] at h
      simp [Verb.read?, h] at hread
    have hrise : loop.rise c = 0 := by
      refine rise_symbol ?_ ?_
      · rintro rfl
        cases hc
      · rintro rfl
        cases hc
    simp [Token.read?, hread, hrise]
  | some result =>
    obtain ⟨verb, rest⟩ := result
    obtain ⟨-, htext⟩ := Verb.of_read?_eq_some hread
    simp only [Token.read?, hread, Option.map_some, Option.toList_some, List.map_cons, List.map_nil,
      List.sum_cons, List.sum_nil, Int.add_zero, Token.rise]
    cases verb with
    | instruction c' =>
      obtain ⟨rfl, -⟩ := List.cons.inj htext
      rfl
    | set =>
      obtain ⟨rfl, -⟩ := List.cons.inj htext
      rfl
    | transfer family direction =>
      obtain ⟨rfl, -⟩ := List.cons.inj htext
      cases family <;> rfl

/-- The net depth of a text is the sum of the levels by which its tokens lead up. -/
theorem netDepth_eq_sum_tokens (text : List Char) :
    loop.netDepth text = ((tokens text).map Token.rise).sum := by
  induction text with
  | nil => rfl
  | cons c text ih =>
    rw [netDepth_cons, tokens_cons, List.map_append, List.sum_append, sum_rise_read?, ih]

/-! ### The program of a text -/

/-- The program text of a token leads up as often as it acts. -/
lemma netDepth_code (token : Token UInt32) :
    loop.netDepth token.code = token.argument.toNat * token.rise := by
  obtain ⟨verb, argument⟩ := token
  cases verb with
  | instruction c => exact netDepth_replicate argument.toNat c
  | set =>
    have hbalanced : loop.Balanced (Token.code ⟨.set, argument⟩) :=
      balanced_code_of_ne (by simp) (by simp)
    simpa [Token.rise] using hbalanced.netDepth_eq_zero (by decide)
  | transfer family direction =>
    have hbalanced : loop.Balanced (Token.code ⟨.transfer family direction, argument⟩) :=
      balanced_code_of_ne (by simp) (by simp)
    simpa [Token.rise] using hbalanced.netDepth_eq_zero (by decide)

lemma netDepth_of_token_lower {token : Token Numeral} {code : List Char}
    (h : Token.lower Template.standard token = .ok code) :
    loop.netDepth code = token.climb := by
  obtain ⟨n, hn, rfl⟩ := Token.lower_eq_ok_iff.mp h
  rw [netDepth_code, Token.climb, Token.times, hn]
  rfl

/-- The program texts of some tokens lead up as often as the tokens act. -/
lemma netDepth_flatten {ts : List (Token Numeral)} {codes : List (List Char)}
    (h : List.Forall₂ (fun token code => Token.lower Template.standard token = .ok code) ts codes) :
    loop.netDepth codes.flatten = (ts.map Token.climb).sum := by
  induction h with
  | nil => rfl
  | @cons token code ts codes hlower _ ih =>
    rw [List.flatten_cons, netDepth_append, netDepth_of_token_lower hlower, ih, List.map_cons,
      List.sum_cons]

/-- The net depth of a lowered text is the sum of the levels by which its tokens lead up, each
as often as the token acts. -/
theorem netDepth_of_lower {text code : List Char} (h : lower text = .ok code) :
    loop.netDepth code = ((tokens text).map Token.climb).sum := by
  rw [lower_eq_pass] at h
  obtain ⟨codes, hall, rfl⟩ := pass_eq_ok_iff.mp h
  exact netDepth_flatten hall

end Alpha

namespace Dialect

open Alpha

/-- A text of tokens is complete if it has as many closing brackets as opening ones. What it is
lowered to is complete if the opening brackets act as often as the closing ones. So the text is
complete exactly if what it is lowered to is, when all brackets have the same argument and this
is not zero. -/
theorem isComplete_of_lower {text code : List Char} (h : lower text = .ok code) :
    (alpha.isComplete text = true ↔ ((tokens text).map Token.rise).sum = 0) ∧
    (base.isComplete code = true ↔
      ((tokens text).map Token.climb).sum = 0) ∧
    ∀ n : UInt32, n ≠ 0 →
      (∀ token ∈ tokens text, token.rise ≠ 0 → token.verb.count token.argument = .ok n) →
      (alpha.isComplete text = true ↔ base.isComplete code = true) := by
  have halpha : alpha.isComplete text = true ↔ ((tokens text).map Token.rise).sum = 0 := by
    rw [← netDepth_eq_sum_tokens]
    exact Delimiters.allMatched_iff
  have hbase : base.isComplete code = true ↔
      ((tokens text).map Token.climb).sum = 0 := by
    rw [← netDepth_of_lower h]
    exact Delimiters.allMatched_iff
  refine ⟨halpha, hbase, ?_⟩
  intro n hn hcount
  have hclimb : ∀ token ∈ tokens text, token.climb = n.toNat * token.rise := by
    intro token htoken
    by_cases hrise : token.rise = 0
    · simp [Token.climb, hrise]
    · rw [Token.climb, Token.times, hcount token htoken hrise]
  have hsum : ((tokens text).map Token.climb).sum =
      n.toNat * ((tokens text).map Token.rise).sum := by
    rw [List.map_congr_left hclimb, List.sum_map_mul_left]
  have hpos : (n.toNat : Int) ≠ 0 := by
    intro hzero
    refine hn (UInt32.toNat_inj.mp ?_)
    simpa using hzero
  rw [halpha, hbase, hsum, Int.mul_eq_zero, or_iff_right hpos]

/-- The loop that is opened twice and closed twice is complete, and so is the program. -/
theorem isComplete_of_lower_twice :
    lower "[2-]2".toList = .ok "[[-]]".toList ∧ alpha.isComplete "[2-]2".toList = true ∧
      base.isComplete "[[-]]".toList = true ∧
      (alpha.isComplete "[2-]2".toList = true ↔ base.isComplete "[[-]]".toList = true) := by
  have hlower : lower "[2-]2".toList = .ok "[[-]]".toList := rfl
  obtain ⟨-, -, hagree⟩ := isComplete_of_lower hlower
  refine ⟨hlower, by decide, by decide, hagree 2 (by decide) ?_⟩
  have htokens : tokens "[2-]2".toList =
      [⟨.instruction '[', .ofNat 2⟩, ⟨.instruction '-', .ofNat 1⟩,
        ⟨.instruction ']', .ofNat 2⟩] := rfl
  rw [htokens]
  decide

/-- A loop that is opened twice and closed once is complete as a text, but not as a program. And
one that is opened no times is not complete as a text, but it is no loop of the program. -/
theorem not_isComplete_of_lower :
    (lower "[2]".toList = .ok "[[]".toList ∧ alpha.isComplete "[2]".toList = true ∧
      base.isComplete "[[]".toList = false) ∧
    lower "[0".toList = .ok [] ∧ alpha.isComplete "[0".toList = false ∧
      base.isComplete [] = true := by
  refine ⟨⟨rfl, ?_, ?_⟩, rfl, ?_, ?_⟩ <;> decide

end Dialect

end TapeTower
