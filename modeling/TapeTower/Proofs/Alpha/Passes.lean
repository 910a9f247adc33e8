import TapeTower.Proofs.Alpha.Lowering

/-!
# One pass is enough

What a pass leaves of any text, if it leaves one, is program text and nothing else
(`isCode_of_pass`): a token that is read has a verb that could be written, and it is replaced
by the program text of this verb for some count. A further pass changes no program text. So
lowering, which repeats passes until one changes nothing, ends with what the first pass gives,
or in the fault of the first pass (`lower_eq_pass`).
-/

namespace TapeTower.Alpha

/-! ### Tokens that are read -/

/-- A token that is read acts a number of times, if its argument is one, and then has the program
text for that number. -/
lemma Token.lower_eq_ok_iff {token : Token Numeral} {code : List Char} :
    Token.lower Template.standard token = .ok code ↔
      ∃ n, token.verb.count token.argument = .ok n ∧ Token.code ⟨token.verb, n⟩ = code := by
  rw [Token.lower, bind_eq_ok_iff]
  simp only [Token.expand_eq, Except.ok.injEq]

/-! ### Passes -/

/-- What a pass gives are the program texts of the tokens, one after the other. -/
lemma pass_eq_ok_iff {text code : List Char} :
    pass text = .ok code ↔
      ∃ codes, List.Forall₂ (fun token code => Token.lower Template.standard token = .ok code)
        (tokens text) codes ∧ codes.flatten = code := by
  simp only [pass, passWith, map_eq_ok_iff, mapM_eq_ok_iff]

/-- The program texts of tokens that are read are program text. -/
lemma isCode_flatten {ts : List (Token Numeral)} {codes : List (List Char)}
    (hknown : ∀ token ∈ ts, token.verb.IsKnown)
    (h : List.Forall₂ (fun token code => Token.lower Template.standard token = .ok code) ts codes) :
    IsCode codes.flatten := by
  induction h with
  | nil => simp [IsCode]
  | @cons token code ts codes hlower _ ih =>
    obtain ⟨htoken, hknown⟩ := List.forall_mem_cons.mp hknown
    obtain ⟨n, -, rfl⟩ := Token.lower_eq_ok_iff.mp hlower
    have hcode : IsCode (Token.code ⟨token.verb, n⟩) := Token.isCode_code htoken
    exact List.forall_mem_append.mpr ⟨hcode, ih hknown⟩

/-- A pass gives program text, or fails. -/
theorem isCode_of_pass {text code : List Char} (h : pass text = .ok code) : IsCode code := by
  obtain ⟨codes, hall, rfl⟩ := pass_eq_ok_iff.mp h
  exact isCode_flatten (fun token htoken => isKnown_of_mem_tokens htoken) hall

/-- Lowering ends where the first pass does: with its program text or in its fault. -/
theorem lower_eq_pass (text : List Char) : lower text = pass text := by
  cases hpass : pass text with
  | error fault => exact bind_eq_error_iff.mpr (Or.inl hpass)
  | ok code =>
    have hagain : pass code = .ok code := pass_of_isCode (isCode_of_pass hpass)
    refine bind_eq_ok_iff.mpr ⟨code, hpass, ?_⟩
    rw [maxPasses, settle]
    exact bind_eq_ok_iff.mpr ⟨code, hagain, if_pos rfl⟩

/-- What is lowered is program text. -/
lemma isCode_of_lower {text code : List Char} (h : lower text = .ok code) : IsCode code := by
  rw [lower_eq_pass] at h
  exact isCode_of_pass h

/-- Written tokens are lowered to their program texts. -/
theorem lower_flatMap_render {ts : List (Token UInt32)} (h : ∀ token ∈ ts, token.verb.IsKnown) :
    lower (ts.flatMap Token.render) = .ok (ts.flatMap Token.code) := by
  rw [lower_eq_pass, pass_flatMap_render h]

/-- A pass over any text fails or gives instructions only, and these a pass leaves as they are.
So lowering any text is one pass over it, with the same fault where it fails, and what was lowered
is lowered to itself. -/
theorem pass_settles (text : List Char) :
    (∀ code, pass text = .ok code → IsCode code ∧ pass code = .ok code) ∧
      lower text = pass text ∧ (lower text >>= lower) = lower text := by
  have hpass : ∀ code, pass text = .ok code → IsCode code ∧ pass code = .ok code := by
    intro code hcode
    have hinstructions := isCode_of_pass hcode
    exact ⟨hinstructions, pass_of_isCode hinstructions⟩
  refine ⟨hpass, lower_eq_pass text, ?_⟩
  rw [lower_eq_pass]
  cases hcode : pass text with
  | error fault => rfl
  | ok code =>
    have hagain : lower code = .ok code := (lower_eq_pass code).trans (hpass code hcode).2
    exact hagain

/-- Prose, a count that wraps and a command within a command are lowered at once. A text with two
numerals that are too large fails for the first. -/
theorem pass_settles_prose :
    pass "set =2 and .4294967297 mb4294967296".toList = .error (.numeralOutOfRange "4294967297") ∧
      lower "set =2 and .4294967297 mb4294967296".toList =
        .error (.numeralOutOfRange "4294967297") ∧
      pass "=4294967298 mb1".toList = .ok "[-]++<[-]>[-<+>]".toList ∧
      pass "[-]++<[-]>[-<+>]".toList = .ok "[-]++<[-]>[-<+>]".toList ∧
      lower "=4294967298 mb1".toList = .ok "[-]++<[-]>[-<+>]".toList := by
  have hfault : pass "set =2 and .4294967297 mb4294967296".toList =
      .error (.numeralOutOfRange "4294967297") := rfl
  have hcode : pass "=4294967298 mb1".toList = .ok "[-]++<[-]>[-<+>]".toList := by
    refine pass_eq_ok_iff.mpr
      ⟨["[-]++".toList, "<[-]>[-<+>]".toList], .cons ?_ (.cons ?_ .nil), rfl⟩
    · exact Token.lower_eq_ok_iff.mpr ⟨2, rfl, rfl⟩
    · exact Token.lower_eq_ok_iff.mpr ⟨1, rfl, rfl⟩
  obtain ⟨-, hlower, -⟩ := pass_settles "set =2 and .4294967297 mb4294967296".toList
  obtain ⟨hpass, hlower', -⟩ := pass_settles "=4294967298 mb1".toList
  exact ⟨hfault, hlower.trans hfault, hcode, (hpass _ hcode).2, hlower'.trans hcode⟩

end TapeTower.Alpha
