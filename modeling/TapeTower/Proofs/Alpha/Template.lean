import TapeTower.Proofs.Alpha.Passes

/-!
# Templates as texts

A command is unfolded from its template piece by piece: a repeated instruction is put out as often
as the distance says, and a command within the template is replaced by its own template. The text
of a template says the same in tokens. With the distance put in for `*`, it can be lowered like any
text: then the distance is a numeral that is read again for each token, with a cap if the token is
a move of the cursor and exactly if it is a command.

A template is read back from its text piece by piece, since each piece starts with a token
(`tokens_fill_render`). So both ways lead to the same program text (`lower_fill_render`).
-/

namespace TapeTower.Alpha

namespace Template

/-- Puts a number in for each `*` of a text. -/
def fill (n : Nat) (text : List Char) : List Char :=
  text.flatMap fun c => if c = '*' then Nat.toDigits 10 n else [c]

end Template

open Template

namespace Piece

/-- A piece that can be read back: all its instructions are those of the machine. -/
def IsReadable : Piece → Prop
  | .literal text => IsCode text
  | .repeated instruction => (Instruction.ofChar? instruction).isSome = true
  | .command _ _ => True

/-- The tokens that a piece is written as, over a given distance. -/
def tokens (n : UInt32) : Piece → List (Token UInt32)
  | .literal text => text.map fun c => ⟨.instruction c, 1⟩
  | .repeated instruction => [⟨.instruction instruction, n⟩]
  | .command family direction => [⟨.transfer family direction, n⟩]

end Piece

/-! ### Texts of pieces -/

lemma ne_star_of_isSome {c : Char} (h : (Instruction.ofChar? c).isSome = true) : c ≠ '*' := by
  rintro rfl
  cases h

lemma startsToken_of_isSome {c : Char} (h : (Instruction.ofChar? c).isSome = true) :
    startsToken c = true := by
  simp [startsToken, h]

lemma StartsToken.append {s t : List Char} (hs : StartsToken s) (ht : StartsToken t) :
    StartsToken (s ++ t) := by
  cases s with
  | nil => exact ht
  | cons c s => exact hs

/-- There is nothing to put in where program text stands. -/
lemma fill_of_isCode (n : Nat) {text : List Char} (h : IsCode text) : fill n text = text := by
  have hself : ∀ c ∈ text, (if c = '*' then Nat.toDigits 10 n else [c]) = [c] :=
    fun c hc => if_neg (ne_star_of_isSome (h c hc))
  rw [fill, List.flatMap_congr hself]
  exact List.flatMap_singleton' text

/-- The text of a template is that of its pieces. -/
lemma fill_render_cons (n : Nat) (piece : Piece) (pieces : Template) :
    fill n (render (piece :: pieces)) = fill n (render [piece]) ++ fill n (render pieces) := by
  simp [fill, render]

/-- A piece that is not taken literally is a verb with the distance as its argument. -/
lemma fill_render_repeated (n : Nat) {instruction : Char}
    (h : (Instruction.ofChar? instruction).isSome = true) :
    fill n (render [.repeated instruction]) =
      (Verb.instruction instruction).render ++ (Numeral.ofNat n).digits := by
  simp [fill, render, Verb.render, ne_star_of_isSome h, Numeral.ofNat]

lemma fill_render_command (n : Nat) (family : Family) (direction : Direction) :
    fill n (render [.command family direction]) =
      (Verb.transfer family direction).render ++ (Numeral.ofNat n).digits := by
  cases family <;> cases direction <;> simp [fill, render, Verb.render, Family.letter,
    Direction.letter, Numeral.ofNat]

/-- A piece starts with a token, unless it is empty, and is read back as its tokens. -/
lemma Piece.tokens_fill_render {piece : Piece} (h : piece.IsReadable) (n : UInt32) :
    StartsToken (fill n.toNat (render [piece])) ∧
      Alpha.tokens (fill n.toNat (render [piece])) = (piece.tokens n).map Token.numeral := by
  cases piece with
  | literal text =>
    have htext : fill n.toNat (render [.literal text]) = text := by
      rw [render, List.flatMap_singleton, fill_of_isCode _ h]
    rw [htext]
    refine ⟨fun c hc => ?_, tokens_of_isCode h⟩
    exact startsToken_of_isSome (h c (List.mem_of_mem_head? hc))
  | repeated instruction =>
    have hverb : (Verb.instruction instruction).IsKnown := h
    rw [fill_render_repeated _ h]
    refine ⟨?_, tokens_render_elim hverb (some (.ofNat n.toNat))⟩
    rintro c ⟨⟩
    exact startsToken_of_isSome h
  | command family direction =>
    have hverb : (Verb.transfer family direction).IsKnown := trivial
    rw [fill_render_command]
    refine ⟨?_, tokens_render_elim hverb (some (.ofNat n.toNat))⟩
    rintro c ⟨⟩
    cases family <;> decide

/-- A template is read back from its text, whatever the distance is. -/
theorem tokens_fill_render {pieces : Template} (h : ∀ piece ∈ pieces, piece.IsReadable)
    (n : UInt32) :
    tokens (fill n.toNat (render pieces)) =
      (pieces.flatMap (Piece.tokens n)).map Token.numeral := by
  suffices hpieces : StartsToken (fill n.toNat (render pieces)) ∧
      tokens (fill n.toNat (render pieces)) =
        (pieces.flatMap (Piece.tokens n)).map Token.numeral from hpieces.2
  induction pieces with
  | nil => exact ⟨startsToken_nil, rfl⟩
  | cons piece pieces ih =>
    obtain ⟨hpiece, hpieces⟩ := List.forall_mem_cons.mp h
    obtain ⟨hstart, hread⟩ := Piece.tokens_fill_render hpiece n
    obtain ⟨hstarts, hreads⟩ := ih hpieces
    rw [fill_render_cons, tokens_append_of_startsToken hstarts, hread, hreads, List.flatMap_cons,
      List.map_append]
    exact ⟨hstart.append hstarts, rfl⟩

/-- The text of a template is lowered to the program texts of its pieces. -/
lemma lower_of_isReadable {pieces : Template} (h : ∀ piece ∈ pieces, piece.IsReadable)
    (n : UInt32) :
    lower (fill n.toNat (render pieces)) =
      .ok ((pieces.flatMap (Piece.tokens n)).flatMap Token.code) := by
  rw [lower_eq_pass, pass_of_tokens_eq (tokens_fill_render h n)]

/-! ### The templates of the language -/

lemma isReadable_standard (family : Family) (direction : Direction) :
    ∀ piece ∈ standard family direction, piece.IsReadable := by
  cases family <;> cases direction <;>
    simp [standard, Piece.IsReadable, IsCode, Instruction.ofChar?, Direction.moveChar,
      Direction.opposite]

/-- The pieces of a template make up the program text of the command. -/
lemma flatMap_code_standard (family : Family) (direction : Direction) {n : UInt32} (hn : n ≠ 0) :
    ((standard family direction).flatMap (Piece.tokens n)).flatMap Token.code =
      family.code direction n.toNat := by
  have hpos : n.toNat ≠ 0 := fun h => hn (UInt32.toNat_inj.mp h)
  cases family <;>
    simp [standard, Piece.tokens, Token.code, Family.code, clearText, loopText, carryBody, goText,
      hpos]

/-- Over every distance but zero, the text of a command's template with the distance put in is
lowered to the same program text as the command: it is the one that the template unfolds into. -/
theorem lower_fill_render (family : Family) (direction : Direction) {n : UInt32} (hn : n ≠ 0) :
    ∃ code, unfold standard n.toNat maxExpansions [.command family direction] = .ok code ∧
      lower (fill n.toNat (render (standard family direction))) = .ok code ∧
      lower (Token.render ⟨.transfer family direction, n⟩) = .ok code := by
  have hpos : n.toNat ≠ 0 := fun h => hn (UInt32.toNat_inj.mp h)
  have hcode : Token.code ⟨.transfer family direction, n⟩ = family.code direction n.toNat :=
    if_neg hpos
  refine ⟨family.code direction n.toNat, unfold_command family direction n.toNat, ?_, ?_⟩
  · rw [lower_of_isReadable (isReadable_standard family direction), flatMap_code_standard _ _ hn]
  · have hknown : ∀ token ∈ [(⟨.transfer family direction, n⟩ : Token UInt32)],
        token.verb.IsKnown := by
      simp [Verb.IsKnown]
    have hlower := lower_flatMap_render hknown
    rwa [List.flatMap_singleton, List.flatMap_singleton, hcode] at hlower

/-- A move holds another command. The largest distance is read as it is by all tokens. Over the
distance zero the two differ: moves over no cell are left out, but not the loop around them. -/
theorem lower_fill_render_nested :
    (2 : UInt32) ≠ 0 ∧ lower "<2[-]>2ab2".toList = .ok "<<[-]>>[-<<+>>]".toList ∧
      lower "mb2".toList = .ok "<<[-]>>[-<<+>>]".toList ∧
      (4294967295 : UInt32) ≠ 0 ∧
      (∃ code, lower ">4294967295[-]<4294967295af4294967295".toList = .ok code ∧
        lower "mf4294967295".toList = .ok code) ∧
      lower "[->0+<0]".toList = .ok "[-+]".toList ∧ lower "af0".toList = .ok [] := by
  have htwo : (2 : UInt32) ≠ 0 := by decide
  have hlargest : (4294967295 : UInt32) ≠ 0 := by decide
  obtain ⟨code, hunfold, htext, hcommand⟩ := lower_fill_render .move .backward htwo
  obtain ⟨code', -, htext', hcommand'⟩ := lower_fill_render .move .forward hlargest
  obtain rfl : "<<[-]>>[-<<+>>]".toList = code := by
    rw [unfold_command] at hunfold
    exact Except.ok.inj hunfold
  exact ⟨htwo, htext, hcommand, hlargest, ⟨code', htext', hcommand'⟩, rfl, rfl⟩

end TapeTower.Alpha
