import TapeTower.Dialect
import TapeTower.Proofs.Alpha.Effect
import TapeTower.Proofs.Beta.Compilation
import TapeTower.Proofs.Tree.Render

/-!
# Distances in trees and in tokens

A distance is read in two ways. In a tree it is a signed number, which must not have more than 64
bits; in a text of tokens it is a numeral of any length behind the letter of a direction. A cell has
to hold it in both. So the two ways lead to the same program up to the largest number of a cell
(`compile_callText`, `compile_command`), and both fail beyond. But the fault of a tree is another
one where the distance has more than 64 bits: then it is no number at all there.
-/

namespace TapeTower

namespace Direction

/-- The sign of a distance in a direction, as it is written. -/
def sign : Direction → List Char
  | .forward => []
  | .backward => ['-']

/-- So many cells in a direction, as a signed distance. -/
def signed (n : Nat) : Direction → Int
  | .forward => n
  | .backward => -n

lemma natAbs_signed (direction : Direction) (n : Nat) : (direction.signed n).natAbs = n := by
  cases direction <;> simp [signed]

/-- The direction of a distance that is not zero is told by its sign. -/
lemma ofSign_signed (direction : Direction) {n : Nat} (h : n ≠ 0) :
    (if 0 < direction.signed n then .forward else .backward) = direction := by
  cases direction with
  | forward =>
    have hpos : 0 < signed n .forward := Int.natCast_pos.mpr (Nat.pos_of_ne_zero h)
    rw [if_pos hpos]
  | backward =>
    have hneg : ¬ 0 < signed n .backward := by simp [signed]
    rw [if_neg hneg]

end Direction

namespace Beta

open Alpha

/-! ### Signed numerals -/

/-- A signed number of at most 64 bits. -/
def Is64Bit (distance : Int) : Prop :=
  -0x8000000000000000 ≤ distance ∧ distance < 0x8000000000000000

instance (distance : Int) : Decidable (Is64Bit distance) :=
  inferInstanceAs (Decidable (_ ∧ _))

/-- What a cell can hold has fewer bits. -/
lemma is64Bit_of_le {n : Nat} (h : n ≤ largest) (direction : Direction) :
    Is64Bit (direction.signed n) := by
  unfold largest at h
  cases direction <;> simp only [Is64Bit, Direction.signed] <;> omega

/-- This is the bound that a reader of signed numbers checks. -/
lemma bounded_eq (distance : Int) :
    (if -0x8000000000000000 ≤ distance ∧ distance < 0x8000000000000000 then some distance
      else none) = if Is64Bit distance then some distance else none := by
  by_cases h : Is64Bit distance
  · rw [if_pos h]
    exact if_pos h
  · rw [if_neg h]
    exact if_neg h

/-- A numeral with a sign is read as the signed number, if this has 64 bits at most. -/
lemma readDistance?_sign_append (direction : Direction) (n : Numeral) :
    readDistance? (direction.sign ++ n.digits) =
      if Is64Bit (direction.signed n.value) then some (direction.signed n.value) else none := by
  have hread := n.ofText?_digits
  cases direction with
  | forward =>
    -- The first digit is no sign.
    have hfirst : ∀ c text, n.digits = c :: text → c.isDigit = true := by
      intro c text htext
      exact n.isDigit_of_mem c (by simp [htext])
    have hminus : ∀ text, n.digits = '-' :: text → False := by
      intro text htext
      exact absurd (hfirst _ _ htext) (by decide)
    have hplus : ∀ text, n.digits = '+' :: text → False := by
      intro text htext
      exact absurd (hfirst _ _ htext) (by decide)
    rw [Direction.sign, List.nil_append, readDistance?.eq_3 _ hminus hplus]
    dsimp only
    rw [hread, Option.map_some, Option.bind_some]
    exact bounded_eq n.value
  | backward =>
    rw [Direction.sign, List.singleton_append, readDistance?.eq_1]
    dsimp only
    rw [hread, Option.map_some, Option.bind_some]
    exact bounded_eq (-n.value)

lemma distanceArgument_atom (function : Function) (text : List Char) :
    distanceArgument function [.atom text] =
      match readDistance? text with
      | some distance => .ok distance
      | none => .error (function.invalidArgument (.atom text)) :=
  rfl

/-- A signed numeral is an argument if it has 64 bits at most. -/
lemma distanceArgument_signed (function : Function) (direction : Direction) (n : Numeral) :
    distanceArgument function [.atom (direction.sign ++ n.digits)] =
      if Is64Bit (direction.signed n.value) then .ok (direction.signed n.value)
      else .error (function.invalidArgument (.atom (direction.sign ++ n.digits))) := by
  rw [distanceArgument_atom, readDistance?_sign_append]
  by_cases h : Is64Bit (direction.signed n.value)
  · rw [if_pos h, if_pos h]
  · rw [if_neg h, if_neg h]

/-! ### Commands of a family -/

lemma relative_signed (family : Family) (direction : Direction) (n : Nat) :
    Token.relative family (direction.signed n) =
      if n ≤ largest then
        .ok ⟨.transfer family (if 0 < direction.signed n then .forward else .backward),
          UInt32.ofNat n⟩
      else .error (.numeralOutOfRange (toString (direction.signed n))) := by
  rw [Token.relative, direction.natAbs_signed]

/-- The command of a signed distance is lowered to the program text in the direction of the sign.
Over no distance there is nothing to do in any direction. -/
lemma lower_relative (family : Family) (direction : Direction) {n : Nat} (h : n ≤ largest) :
    Alpha.lower (List.flatMap Token.render [⟨.transfer family
        (if 0 < direction.signed n then .forward else .backward), UInt32.ofNat n⟩]) =
      .ok (Token.code ⟨.transfer family direction, UInt32.ofNat n⟩) := by
  rw [lower_flatMap_render (by simp [Verb.IsKnown]), List.flatMap_singleton, Token.code, Token.code]
  simp only [toNat_ofNat_of_le_largest h]
  by_cases hzero : n = 0
  · rw [if_pos hzero, if_pos hzero]
  · rw [direction.ofSign_signed hzero]

/-- A command with its direction and a numeral is lowered to the program text for the value of the
numeral, if a cell can hold it. -/
lemma compile_command (family : Family) (direction : Direction) (n : Numeral) :
    Dialect.alpha.compile (family.letter :: direction.letter :: n.digits) =
      if n.value ≤ largest then .ok (Token.code ⟨.transfer family direction, UInt32.ofNat n.value⟩)
      else .error (.numeralOutOfRange (String.ofList n.digits)) := by
  have hknown : (Verb.transfer family direction).IsKnown := trivial
  have htokens := tokens_render_elim hknown (some n)
  by_cases h : n.value ≤ largest
  · rw [if_pos h]
    exact lower_of_tokens_eq_singleton htokens (Numeral.exact_of_le h)
  · rw [if_neg h]
    exact lower_eq_error_of_tokens_eq_singleton htokens (Numeral.exact_of_lt (Nat.not_le.mp h))

/-! ### Calls -/

/-- The text of the call of a function with one atom. -/
def callText (function : Function) (argument : List Char) : List Char :=
  '(' :: (function.name.toList ++ ' ' :: (argument ++ [')']))

lemma isWord_name (function : Function) : Tree.IsWord function.name.toList := by
  cases function <;> simp [Tree.IsWord, Function.name]

lemma isWord_sign_append (direction : Direction) (n : Numeral) :
    Tree.IsWord (direction.sign ++ n.digits) := by
  have hchars : ∀ c ∈ direction.sign ++ n.digits, c = '-' ∨ c.isDigit = true := by
    rw [List.forall_mem_append]
    refine ⟨fun c hc => ?_, fun c hc => Or.inr (n.isDigit_of_mem c hc)⟩
    cases direction with
    | forward => cases hc
    | backward => exact Or.inl (List.mem_singleton.mp hc)
  refine ⟨by simp [n.digits_ne_nil], fun c hc hmem => ?_⟩
  have hc := hchars c hc
  simp only [List.mem_cons, List.not_mem_nil, or_false] at hmem
  rcases hmem with rfl | rfl | rfl | rfl | rfl | rfl <;> revert hc <;> decide

/-- A call with a word for its argument is read as such. -/
lemma parse_callText (function : Function) {argument : List Char} (h : Tree.IsWord argument) :
    Tree.parse (callText function argument) =
      .ok (.list [.atom function.name.toList, .atom argument]) := by
  have hrender : (Tree.list [.atom function.name.toList, .atom argument]).render =
      callText function argument := by
    simp [callText, Tree.render, Tree.renderOnto, Tree.renderItems]
  rw [← hrender]
  refine Tree.parse_render_of_legible ⟨?_, ?_, ?_⟩
  · rw [Tree.ofWords_list_iff]
    simpa [Tree.ofWords_atom_iff] using ⟨isWord_name function, h⟩
  · refine Tree.within_list_iff.mpr ?_
    simpa using ⟨Tree.within_atom 510 _, Tree.within_atom 510 _⟩
  · rintro name ⟨⟩

lemma calls_name (function : Function) (arguments : List Tree) :
    Calls (.list (.atom function.name.toList :: arguments)) function arguments := by
  refine ⟨_, rfl, ?_⟩
  rw [String.ofList_toList]
  cases function <;> decide

/-- A tree is lowered by way of its tokens. -/
lemma compile_of_parse {source : List Char} {tree : Tree} (h : Tree.parse source = .ok tree) :
    Dialect.beta.compile source =
      tokensOfCall tree >>= fun ts => Alpha.lower (ts.flatMap Token.render) := by
  rw [Dialect.compile, h]
  show (compile tree >>= fun text => Alpha.lower text) = _
  rw [compile]
  cases tokensOfCall tree <;> rfl

/-- A call of a function that carries a cell over is lowered to the program text for its distance,
if a cell can hold it. -/
lemma compile_callText {function : Function} {family : Family}
    (hfamily : function.family? = some family) (direction : Direction) (n : Numeral) :
    Dialect.beta.compile (callText function (direction.sign ++ n.digits)) =
      if n.value ≤ largest then .ok (Token.code ⟨.transfer family direction, UInt32.ofNat n.value⟩)
      else if Is64Bit (direction.signed n.value) then
        .error (.numeralOutOfRange (toString (direction.signed n.value)))
      else .error (function.invalidArgument (.atom (direction.sign ++ n.digits))) := by
  rw [compile_of_parse (parse_callText function (isWord_sign_append direction n)),
    tokensOfCall_family (calls_name function _) hfamily, relative, distanceArgument_signed]
  by_cases hle : n.value ≤ largest
  · rw [if_pos hle, if_pos (is64Bit_of_le hle direction), ← lower_relative family direction hle]
    show (Token.relative family (direction.signed n.value) >>= _) >>= _ = _
    rw [relative_signed, if_pos hle]
    rfl
  · by_cases hbits : Is64Bit (direction.signed n.value)
    · rw [if_neg hle, if_pos hbits, if_pos hbits]
      show (Token.relative family (direction.signed n.value) >>= _) >>= _ = _
      rw [relative_signed, if_neg hle]
      rfl
    · rw [if_neg hle, if_neg hbits, if_neg hbits]
      rfl

/-! ### Calls and commands -/

/-- A call and a command over the same distance are lowered to the same program, and both fail if
the distance is too large for a cell. The fault is that of the numeral, for the command always and
for the call as long as the signed distance has 64 bits at most. Beyond, the call has an invalid
argument. -/
theorem compile_distance {function : Function} {family : Family}
    (hfamily : function.family? = some family) (direction : Direction) (n : Numeral) :
    let call := Dialect.beta.compile (callText function (direction.sign ++ n.digits))
    let command := Dialect.alpha.compile (family.letter :: direction.letter :: n.digits)
    let code := if n.value = 0 then [] else family.code direction n.value
    (n.value ≤ largest → call = .ok code ∧ command = .ok code) ∧
      (largest < n.value →
        command = .error (.numeralOutOfRange (String.ofList n.digits)) ∧
        (Is64Bit (direction.signed n.value) →
          call = .error (.numeralOutOfRange (toString (direction.signed n.value)))) ∧
        (¬ Is64Bit (direction.signed n.value) →
          call = .error (.invalidArgument function.name
            (String.ofList (direction.sign ++ n.digits))))) := by
  intro call command code
  have hcall : call = _ := compile_callText hfamily direction n
  have hcommand : command = _ := compile_command family direction n
  constructor
  · intro hle
    have hcode : Token.code ⟨.transfer family direction, UInt32.ofNat n.value⟩ = code := by
      rw [Token.code]
      simp only [toNat_ofNat_of_le_largest hle, code]
    rw [hcall, hcommand, if_pos hle, if_pos hle, hcode]
    exact ⟨rfl, rfl⟩
  · intro hlt
    have hnot : ¬ n.value ≤ largest := Nat.not_le.mpr hlt
    rw [hcall, hcommand, if_neg hnot, if_neg hnot]
    refine ⟨rfl, fun hbits => if_pos hbits, fun hbits => ?_⟩
    have hrender : (Tree.atom (direction.sign ++ n.digits)).render = direction.sign ++ n.digits :=
      List.append_nil _
    rw [if_neg hbits, Function.invalidArgument, hrender]

/-- Zeros in front do not matter, and a distance that is just too large for a cell is reported
alike, but for these zeros and the sign. -/
theorem compile_distance_backward :
    Function.family? .moveRelative = some .move ∧
      Dialect.beta.compile "(move-relative -02)".toList = .ok "<<[-]>>[-<<+>>]".toList ∧
      Dialect.alpha.compile "mb02".toList = .ok "<<[-]>>[-<<+>>]".toList ∧
      Dialect.beta.compile "(move-relative -04294967296)".toList =
        .error (.numeralOutOfRange "-4294967296") ∧
      Dialect.alpha.compile "mb04294967296".toList = .error (.numeralOutOfRange "04294967296") := by
  obtain ⟨hsame, -⟩ := @compile_distance .moveRelative .move rfl .backward
    ⟨"02".toList, by decide, List.all_eq_true.mp rfl⟩
  obtain ⟨-, hlarge⟩ := @compile_distance .moveRelative .move rfl .backward
    ⟨"04294967296".toList, by decide, List.all_eq_true.mp rfl⟩
  obtain ⟨hcall, hcommand⟩ := hsame (by decide)
  obtain ⟨hcommand', hcall', -⟩ := hlarge (by decide)
  exact ⟨rfl, hcall, hcommand, hcall' (by decide), hcommand'⟩

/-- A distance of `2 ^ 63` is a numeral out of range for a command, but an invalid argument of a
call. -/
theorem not_compile_distance :
    Dialect.alpha.compile "af9223372036854775808".toList =
        .error (.numeralOutOfRange "9223372036854775808") ∧
      Dialect.beta.compile "(add!-relative 9223372036854775808)".toList =
        .error (.invalidArgument "add!-relative" "9223372036854775808") ∧
      ∀ digits, Dialect.beta.compile "(add!-relative 9223372036854775808)".toList ≠
        .error (.numeralOutOfRange digits) := by
  have hcall : Dialect.beta.compile "(add!-relative 9223372036854775808)".toList =
      .error (.invalidArgument "add!-relative" "9223372036854775808") := by
    decide +kernel
  refine ⟨rfl, hcall, fun digits h => ?_⟩
  rw [hcall] at h
  cases h

end Beta

end TapeTower
