import TapeTower.Proofs.Alpha.Scan
import TapeTower.Proofs.Result

/-!
# Lowering what tokens are written as

The texts of some tokens, one after the other with at most comments between them, are read as these
tokens again (`tokens_flatMap_spaced`): an argument ends where a comment or the next token starts,
and no other part of a token is taken for one. A pass over such a text therefore gives the
program texts of the tokens (`pass_of_tokens_eq`).

Program text is itself made of tokens, of instructions that act once. So a further pass leaves
it as it is (`pass_of_isCode`).
-/

namespace TapeTower.Alpha

/-! ### Written tokens -/

/-- The token as it is read back: its argument is a numeral. -/
def Token.numeral (token : Token UInt32) : Token Numeral :=
  ⟨token.verb, .ofNat token.argument.toNat⟩

/-- A token is its verb, and its argument unless this is the one that is left out. -/
lemma Token.render_eq (token : Token UInt32) :
    token.render = token.verb.render ∧ token.argument = 1 ∨
      token.render = token.verb.render ++ (Numeral.ofNat token.argument.toNat).digits := by
  obtain ⟨verb, argument⟩ := token
  cases verb with
  | instruction char =>
    by_cases h : argument = 1
    · left
      simp [Token.render, Verb.render, h]
    · right
      simp [Token.render, Verb.render, h, Numeral.ofNat]
  | set => exact Or.inr rfl
  | transfer family direction => exact Or.inr rfl

/-- A token is read back from what it is written as. -/
lemma Token.tokens_render {token : Token UInt32} (hverb : token.verb.IsKnown) :
    tokens token.render = [token.numeral] := by
  rcases token.render_eq with ⟨hrender, hone⟩ | hrender
  · have htokens := tokens_render_elim hverb none
    rw [Option.elim_none, List.append_nil, ← hrender] at htokens
    rw [htokens, Token.numeral, hone, UInt32.toNat_one, Numeral.ofNat_one, Option.getD_none]
  · have htokens := tokens_render_elim hverb (some (.ofNat token.argument.toNat))
    rw [Option.elim_some, ← hrender] at htokens
    exact htokens

lemma Token.startsToken_render {token : Token UInt32} (hverb : token.verb.IsKnown)
    (text : List Char) : StartsToken (token.render ++ text) := by
  obtain ⟨verb, argument⟩ := token
  intro c hc
  cases verb with
  | instruction char =>
    have hchar : c = char := by
      unfold Token.render at hc
      dsimp only at hc
      split at hc <;> simpa using hc.symm
    rw [hchar, startsToken, show (Instruction.ofChar? char).isSome = true from hverb]
    rfl
  | set =>
    cases hc
    decide
  | transfer family direction =>
    cases hc
    cases family <;> decide

/-- A written token does not end with the letter of a family. -/
lemma Token.ofLetter?_of_mem_getLast?_render {token : Token UInt32} (hverb : token.verb.IsKnown)
    {c : Char} (hc : c ∈ token.render.getLast?) : Family.ofLetter? c = none := by
  rcases token.render_eq with ⟨hrender, -⟩ | hrender
  · rw [hrender] at hc
    exact Verb.ofLetter?_of_mem_getLast?_render hverb hc
  · have hdigits := (Numeral.ofNat token.argument.toNat).digits_ne_nil
    rw [hrender, List.getLast?_append_of_ne_nil _ hdigits] at hc
    have hdigit := (Numeral.ofNat token.argument.toNat).isDigit_of_mem c (List.mem_of_getLast? hc)
    exact Family.ofLetter?_of_not_startsToken (not_startsToken_of_isDigit hdigit)

/-- Written tokens are read back as they were, with comments behind them. -/
theorem tokens_flatMap_spaced {items : List (Token UInt32 × List Char)}
    (hknown : ∀ item ∈ items, item.1.verb.IsKnown) (hcomment : ∀ item ∈ items, IsComment item.2) :
    tokens (items.flatMap fun item => item.1.render ++ item.2) =
      items.map fun item => item.1.numeral := by
  induction items with
  | nil => rfl
  | cons item items ih =>
    obtain ⟨token, comment⟩ := item
    obtain ⟨htoken, hknown⟩ := List.forall_mem_cons.mp hknown
    obtain ⟨hskip, hcomment⟩ := List.forall_mem_cons.mp hcomment
    have hstarts : StartsToken (items.flatMap fun item => item.1.render ++ item.2) := by
      cases items with
      | nil => exact startsToken_nil
      | cons next items =>
        rw [List.flatMap_cons, List.append_assoc]
        exact Token.startsToken_render (hknown next (by simp)) _
    have hlast : ∀ c ∈ token.render.getLast?, Family.ofLetter? c = none :=
      fun c hc => Token.ofLetter?_of_mem_getLast?_render htoken hc
    rw [List.flatMap_cons, List.append_assoc, tokens_append_comment hskip hlast
      fun _ _ _ d hd => not_isDigit_of_startsToken (hstarts d hd)]
    rw [tokens_append_of_startsToken hstarts, Token.tokens_render htoken, ih hknown hcomment,
      List.map_cons, List.singleton_append]

/-- Written tokens are read back as they were. -/
theorem tokens_flatMap_render {ts : List (Token UInt32)} (h : ∀ token ∈ ts, token.verb.IsKnown) :
    tokens (ts.flatMap Token.render) = ts.map Token.numeral := by
  have hspaced := @tokens_flatMap_spaced (ts.map fun token => (token, []))
    (by simpa using h) (by simp [IsComment])
  simpa [List.flatMap_map, Function.comp_def] using hspaced

/-! ### Program texts -/

/-- A loop around some program text. -/
def loopText (body : List Char) : List Char := '[' :: (body ++ [']'])

/-- The loop that clears a cell. -/
def clearText : List Char := loopText ['-']

/-- Moves over a distance. -/
def goText (direction : Direction) (n : Nat) : List Char :=
  List.replicate n direction.moveChar

/-- The body of the loop that carries a cell over, one by one: the current cell goes down
and the other one is changed. -/
def carryBody (change : Char) (direction : Direction) (n : Nat) : List Char :=
  '-' :: (goText direction n ++ change :: goText direction.opposite n)

/-- The program text of a command over a distance that is not zero. -/
def Family.code (direction : Direction) (n : Nat) : Family → List Char
  | .add => loopText (carryBody '+' direction n)
  | .sub => loopText (carryBody '-' direction n)
  | .move =>
    goText direction n ++
      (clearText ++ (goText direction.opposite n ++ loopText (carryBody '+' direction n)))

/-- The program text of a token. -/
def Token.code (token : Token UInt32) : List Char :=
  let n := token.argument.toNat
  match token.verb with
  | .instruction char => List.replicate n char
  | .set => clearText ++ List.replicate n '+'
  | .transfer family direction => if n = 0 then [] else family.code direction n

/-- The templates of the language unfold into the program texts of the commands. -/
lemma unfold_command (family : Family) (direction : Direction) (n : Nat) :
    Template.unfold Template.standard n Template.maxExpansions [.command family direction] =
      .ok (family.code direction n) := by
  cases family with
  | add =>
    simp [Template.maxExpansions, Template.standard, Template.unfold, Except.map, Family.code,
      loopText, carryBody, goText]
  | sub =>
    simp [Template.maxExpansions, Template.standard, Template.unfold, Except.map, Family.code,
      loopText, carryBody, goText]
  | move =>
    simp [Template.maxExpansions, Template.standard, Template.unfold, Except.map, Family.code,
      clearText, loopText, carryBody, goText]

/-- Every token has a program text. -/
lemma Token.expand_eq (token : Token UInt32) :
    Token.expand Template.standard token = .ok token.code := by
  obtain ⟨verb, argument⟩ := token
  cases verb with
  | instruction char => rfl
  | set => rfl
  | transfer family direction =>
    unfold Token.expand Token.code
    dsimp only
    split
    · rfl
    · exact unfold_command family direction argument.toNat

/-- An argument of 32 bits is read back as it was, by every verb. -/
lemma Verb.count_ofNat (verb : Verb) (n : UInt32) : verb.count (.ofNat n.toNat) = .ok n := by
  unfold Verb.count
  split
  · rw [Numeral.wrapping_ofNat]
  · rw [Numeral.wrapping_ofNat]
  · rw [Numeral.saturating_ofNat]
  · rw [Numeral.saturating_ofNat]
  · exact Numeral.exact_ofNat n
  · rw [Numeral.wrapping_ofNat]
  · exact Numeral.exact_ofNat n

/-- What a token is read back as is lowered to its program text. -/
lemma Token.lower_numeral (token : Token UInt32) :
    Token.lower Template.standard token.numeral = .ok token.code := by
  rw [Token.lower, Token.numeral, Verb.count_ofNat]
  exact token.expand_eq

/-! ### Passes -/

/-- A pass over a text of which tokens are read back gives the program texts of these. -/
lemma pass_of_tokens_eq {text : List Char} {ts : List (Token UInt32)}
    (h : tokens text = ts.map Token.numeral) : pass text = .ok (ts.flatMap Token.code) := by
  have hlower : (ts.map Token.numeral).mapM (Token.lower Template.standard) =
      .ok (ts.map Token.code) := by
    rw [mapM_eq_ok_iff, List.forall₂_map_left_iff, List.forall₂_map_right_iff, List.forall₂_same]
    exact fun token _ => token.lower_numeral
  rw [pass, passWith, h, hlower]
  rfl

/-- A pass over written tokens gives their program texts. -/
theorem pass_flatMap_render {ts : List (Token UInt32)} (h : ∀ token ∈ ts, token.verb.IsKnown) :
    pass (ts.flatMap Token.render) = .ok (ts.flatMap Token.code) :=
  pass_of_tokens_eq (tokens_flatMap_render h)

/-- A text of instructions only. -/
def IsCode (text : List Char) : Prop := ∀ c ∈ text, (Instruction.ofChar? c).isSome = true

/-- Each instruction of a text is the token that acts once. -/
lemma tokens_of_isCode {code : List Char} (h : IsCode code) :
    tokens code = (code.map fun c => (⟨.instruction c, 1⟩ : Token UInt32)).map Token.numeral := by
  have hknown : ∀ token ∈ code.map fun c => (⟨.instruction c, 1⟩ : Token UInt32),
      token.verb.IsKnown := by
    intro token htoken
    obtain ⟨c, hc, rfl⟩ := List.mem_map.mp htoken
    exact h c hc
  have hrender : (code.map fun c => (⟨.instruction c, 1⟩ : Token UInt32)).flatMap Token.render =
      code := by
    simp [List.flatMap_map, Token.render]
  rw [← tokens_flatMap_render hknown, hrender]

/-- The program text of instructions that act once are these instructions. -/
lemma flatMap_code_once (code : List Char) :
    (code.map fun c => (⟨.instruction c, 1⟩ : Token UInt32)).flatMap Token.code = code := by
  simp [List.flatMap_map, Token.code]

/-- A pass leaves instructions as they are. -/
lemma pass_of_isCode {code : List Char} (h : IsCode code) : pass code = .ok code := by
  rw [pass_of_tokens_eq (tokens_of_isCode h), flatMap_code_once]

lemma isCode_replicate {c : Char} (hc : (Instruction.ofChar? c).isSome = true) (n : Nat) :
    IsCode (List.replicate n c) := by
  intro x hx
  rwa [List.eq_of_mem_replicate hx]

lemma isCode_goText (direction : Direction) (n : Nat) : IsCode (goText direction n) := by
  cases direction <;> exact isCode_replicate rfl n

lemma isSome_increment : (Instruction.ofChar? '+').isSome = true := rfl

lemma isCode_clearText : IsCode clearText := by
  simp [IsCode, clearText, loopText, Instruction.ofChar?]

lemma isCode_carryLoop {change : Char} (hchange : (Instruction.ofChar? change).isSome = true)
    (direction : Direction) (n : Nat) :
    IsCode (loopText (carryBody change direction n)) := by
  have hgo := isCode_goText direction n
  have hback := isCode_goText direction.opposite n
  unfold IsCode loopText carryBody at *
  simp only [List.cons_append, List.append_assoc, List.forall_mem_cons, List.forall_mem_append]
  exact ⟨rfl, rfl, hgo, hchange, hback, rfl, by simp⟩

lemma Family.isCode_code (family : Family) (direction : Direction) (n : Nat) :
    IsCode (family.code direction n) := by
  have hgo := isCode_goText direction n
  have hback := isCode_goText direction.opposite n
  cases family with
  | add => exact isCode_carryLoop rfl direction n
  | sub => exact isCode_carryLoop rfl direction n
  | move =>
    have hloop := isCode_carryLoop isSome_increment direction n
    have hclear := isCode_clearText
    unfold IsCode at *
    rw [Family.code, List.forall_mem_append, List.forall_mem_append, List.forall_mem_append]
    exact ⟨hgo, hclear, hback, hloop⟩

/-- The program text of a token consists of instructions. -/
lemma Token.isCode_code {token : Token UInt32} (hverb : token.verb.IsKnown) :
    IsCode token.code := by
  obtain ⟨verb, argument⟩ := token
  cases verb with
  | instruction char => exact isCode_replicate hverb argument.toNat
  | set =>
    have hclear := isCode_clearText
    have hplus := isCode_replicate isSome_increment argument.toNat
    unfold IsCode at *
    rw [Token.code, List.forall_mem_append]
    exact ⟨hclear, hplus⟩
  | transfer family direction =>
    unfold Token.code
    dsimp only
    split
    · simp [IsCode]
    · exact family.isCode_code direction argument.toNat

end TapeTower.Alpha
