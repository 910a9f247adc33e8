import Mathlib.Tactic.Common
import TapeTower.Input.Character

/-!
# How an input is delivered

Two inputs are alike if the same bytes and the same failures arrive in the same order, however
the bytes are divided into chunks and wherever the source is interrupted. Looking for the next
byte tells no difference between them (`Alike.next_cases`), and so reading a character gives the
same for both and leaves inputs that are alike again (`Alike.exists_readCharacter`).
-/

namespace TapeTower

/-- What arrives from the source of an input, and is noticed. -/
inductive Arrival where
  | byte (value : UInt8)
  | failure (message : String)
  deriving DecidableEq, Repr

namespace Input

/-- The bytes and failures of an input in order, without regard to interruptions and to the
borders of the chunks. -/
def arrivals (input : Input) : List Arrival :=
  input.flatMap fun
    | .chunk bytes => bytes.map .byte
    | .failure message => [.failure message]
    | .interruption => []

/-- Inputs from which the same arrives. -/
def Alike (input input' : Input) : Prop := input.arrivals = input'.arrivals

/-- What is found next, and all that arrives after it. -/
def Next.arrivals : Next → List Arrival
  | .byte value rest => .byte value :: rest.arrivals
  | .failure message rest => .failure message :: rest.arrivals
  | .done => []

/-- What is found next is what arrives first. -/
lemma arrivals_next (input : Input) : input.next.arrivals = input.arrivals := by
  fun_induction next input with
  | case1 => rfl
  | case2 _ ih => exact ih
  | case3 => rfl
  | case4 _ ih => exact ih
  | case5 => rfl

namespace Alike

variable {a b : Input}

lemma append (h : a.Alike b) (more : Input) : Alike (a ++ more) (b ++ more) := by
  unfold Alike arrivals at h ⊢
  rw [List.flatMap_append, List.flatMap_append, h]

/-- The same is found next. -/
lemma next_cases (h : a.Alike b) :
    (∃ value rest rest', a.next = .byte value rest ∧ b.next = .byte value rest' ∧
        rest.Alike rest') ∨
      (∃ message rest rest', a.next = .failure message rest ∧ b.next = .failure message rest' ∧
        rest.Alike rest') ∨
      a.next = .done ∧ b.next = .done := by
  unfold Alike at h
  rw [← arrivals_next a, ← arrivals_next b] at h
  cases ha : a.next <;> cases hb : b.next <;> rw [ha, hb] at h <;>
    simp_all [Next.arrivals, Alike]

/-- The rest of a sequence is read alike. -/
lemma exists_readFollowing (h : a.Alike b) (following : Nat) (low high : UInt8) (code : Nat) :
    ∃ result rest rest', readFollowing following low high code a = (result, rest) ∧
      readFollowing following low high code b = (result, rest') ∧ rest.Alike rest' := by
  induction following generalizing a b low high code with
  | zero => exact ⟨_, a, b, rfl, rfl, h⟩
  | succ following ih =>
    rw [readFollowing, readFollowing]
    rcases h.next_cases with ⟨value, rest, rest', ha, hb, hrest⟩ |
      ⟨message, rest, rest', ha, hb, hrest⟩ | ⟨ha, hb⟩
    · rw [ha, hb]
      by_cases hrange : low ≤ value ∧ value ≤ high
      · simp only [if_pos hrange]
        exact ih hrest _ _ _
      · simp only [if_neg hrange]
        exact ⟨_, a, b, rfl, rfl, h⟩
    · rw [ha, hb]
      exact ⟨_, rest, rest', rfl, rfl, hrest⟩
    · rw [ha, hb]
      exact ⟨_, a, b, rfl, rfl, h⟩

/-- A character is read alike, whether its bytes arrive together or apart. -/
theorem exists_readCharacter (h : a.Alike b) :
    ∃ result rest rest', a.readCharacter = (result, rest) ∧
      b.readCharacter = (result, rest') ∧ rest.Alike rest' := by
  rw [readCharacter, readCharacter]
  rcases h.next_cases with ⟨value, rest, rest', ha, hb, hrest⟩ |
    ⟨message, rest, rest', ha, hb, hrest⟩ | ⟨ha, hb⟩
  · rw [ha, hb]
    by_cases hsingle : value < 0x80
    · simp only [if_pos hsingle]
      exact ⟨_, rest, rest', rfl, rfl, hrest⟩
    · simp only [if_neg hsingle]
      cases SequenceForm.ofFirst? value with
      | none => exact ⟨_, rest, rest', rfl, rfl, hrest⟩
      | some form => exact hrest.exists_readFollowing _ _ _ _
  · rw [ha, hb]
    exact ⟨_, rest, rest', rfl, rfl, hrest⟩
  · rw [ha, hb]
    exact ⟨_, a, b, rfl, rfl, h⟩

end Alike

end Input

end TapeTower
