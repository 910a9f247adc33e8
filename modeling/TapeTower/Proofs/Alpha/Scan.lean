import Mathlib.Data.List.TakeWhile
import TapeTower.Alpha.Lowering
import TapeTower.Proofs.Alpha.Numeral

/-!
# The tokens of a text

A token is looked for in each suffix of a text on its own, so the tokens of a text are the one that
it starts with and those of its tail (`tokens_cons`). What is read of a suffix may lie far behind
its start: comments are skipped until the argument is found. So what stands behind a text `u` has
three ways to change the tokens of `u`: an argument is found there, a numeral goes on there, or the
letter of a family meets a direction. `Interchangeable u x y` excludes all three, and then `u` has
the same tokens in front of `x` and in front of `y` (`exists_tokens_append`). There are two cases of
this.

* Where a token starts, or the text ends, nothing is left for what is in front of it
  (`tokens_append_of_startsToken`).
* A comment between two texts is skipped, if it keeps no verb and no numeral apart
  (`tokens_append_comment`).
-/

namespace TapeTower.Alpha

/-! ### Letters and digits -/

lemma Direction.eq_letter_of_ofLetter? {c : Char} {direction : Direction}
    (h : Direction.ofLetter? c = some direction) : c = direction.letter := by
  unfold Direction.ofLetter? at h
  split at h
  · cases h
    rfl
  · cases h
    rfl
  · cases h

lemma Family.eq_letter_of_ofLetter? {c : Char} {family : Family}
    (h : Family.ofLetter? c = some family) : c = family.letter := by
  unfold Family.ofLetter? at h
  split at h
  · cases h
    rfl
  · cases h
    rfl
  · cases h
    rfl
  · cases h

/-- No digit starts a token. -/
lemma not_isDigit_of_startsToken {c : Char} (h : startsToken c = true) : c.isDigit = false := by
  unfold startsToken at h
  rw [Bool.or_eq_true, Bool.or_eq_true] at h
  rcases h with (h | h) | h
  · obtain ⟨instruction, hc⟩ := Option.isSome_iff_exists.mp h
    rw [Instruction.eq_char_of_ofChar? hc]
    cases instruction <;> decide
  · rw [eq_of_beq h]
    decide
  · obtain ⟨family, hc⟩ := Option.isSome_iff_exists.mp h
    rw [Family.eq_letter_of_ofLetter? hc]
    cases family <;> decide

lemma not_startsToken_of_isDigit {c : Char} (h : c.isDigit = true) : startsToken c = false := by
  cases hc : startsToken c with
  | false => rfl
  | true =>
    rw [not_isDigit_of_startsToken hc] at h
    cases h

/-- No token starts with the letter of a direction. -/
lemma not_startsToken_letter (direction : Direction) : startsToken direction.letter = false := by
  cases direction <;> decide

/-- A character that starts no token is no letter of a family. -/
lemma Family.ofLetter?_of_not_startsToken {c : Char} (h : startsToken c = false) :
    Family.ofLetter? c = none := by
  unfold startsToken at h
  rw [Bool.or_eq_false_iff, Option.isSome_eq_false_iff, Option.isNone_iff_eq_none] at h
  exact h.2

/-! ### Scanning -/

/-- Nothing is read where no token starts. -/
lemma read?_eq_none {c : Char} (h : startsToken c = false) (text : List Char) :
    Token.read? (c :: text) = none := by
  unfold startsToken at h
  rw [Bool.or_eq_false_iff, Bool.or_eq_false_iff, Option.isSome_eq_false_iff,
    Option.isNone_iff_eq_none, Option.isSome_eq_false_iff, Option.isNone_iff_eq_none] at h
  obtain ⟨⟨hinstruction, hset⟩, hfamily⟩ := h
  have hverb : Verb.read? (c :: text) = none := by
    have hequal : c ≠ '=' := by simpa using hset
    unfold Verb.read?
    simp [hinstruction, hequal, hfamily]
  rw [Token.read?, hverb, Option.map_none]

lemma text_foldr_cons (text : List Char) : (text.foldr Scan.cons ⟨[], []⟩).text = text := by
  induction text with
  | nil => rfl
  | cons c text ih =>
    rw [List.foldr_cons, Scan.cons, ih]
    split <;> rfl

/-- The tokens of a text are the one that it starts with, if there is one, and those of
its tail. -/
lemma tokens_cons (c : Char) (text : List Char) :
    tokens (c :: text) = (Token.read? (c :: text)).toList ++ tokens text := by
  unfold tokens
  rw [List.foldr_cons, Scan.cons, text_foldr_cons]
  cases Token.read? (c :: text) <;> rfl

/-- Characters that start no token hold none. -/
lemma tokens_append {s : List Char} (h : ∀ c ∈ s, startsToken c = false) (text : List Char) :
    tokens (s ++ text) = tokens text := by
  induction s with
  | nil => rfl
  | cons c s ih =>
    rw [List.cons_append, tokens_cons, read?_eq_none (h c (by simp)),
      ih fun x hx => h x (by simp [hx])]
    rfl

/-- No token starts in a numeral. -/
lemma tokens_digits (numeral : Numeral) : tokens numeral.digits = [] := by
  have hnone : ∀ c ∈ numeral.digits, startsToken c = false :=
    fun c hc => not_startsToken_of_isDigit (numeral.isDigit_of_mem c hc)
  have hdigits := tokens_append hnone []
  rw [List.append_nil] at hdigits
  exact hdigits

/-! ### Verbs -/

/-- A verb that can be read back: an instruction has to be one of the machine. -/
def Verb.IsKnown : Verb → Prop
  | .instruction char => (Instruction.ofChar? char).isSome = true
  | .set => True
  | .transfer _ _ => True

/-- How a verb is written. -/
def Verb.render : Verb → List Char
  | .instruction char => [char]
  | .set => ['=']
  | .transfer family direction => [family.letter, direction.letter]

/-- A written verb does not end with the letter of a family. -/
lemma Verb.ofLetter?_of_mem_getLast?_render {verb : Verb} (hverb : verb.IsKnown) {c : Char}
    (hc : c ∈ verb.render.getLast?) : Family.ofLetter? c = none := by
  cases verb with
  | instruction char =>
    obtain ⟨instruction, hchar⟩ := Option.isSome_iff_exists.mp hverb
    obtain rfl := Instruction.eq_char_of_ofChar? hchar
    cases hc
    cases instruction <;> rfl
  | set =>
    cases hc
    rfl
  | transfer family direction =>
    cases hc
    cases direction <;> rfl

/-- A verb is read where it is written. -/
lemma Verb.read?_render {verb : Verb} (hverb : verb.IsKnown) (text : List Char) :
    Verb.read? (verb.render ++ text) = some (verb, text) := by
  cases verb with
  | instruction char => simp_all [Verb.render, Verb.read?, Verb.IsKnown]
  | set => rfl
  | transfer family direction => cases family <;> cases direction <;> rfl

/-- A verb that is read stands at the start of the text as it is written. -/
lemma Verb.of_read?_eq_some {text rest : List Char} {verb : Verb}
    (h : Verb.read? text = some (verb, rest)) : verb.IsKnown ∧ text = verb.render ++ rest := by
  cases text with
  | nil => cases h
  | cons c text =>
    unfold Verb.read? at h
    dsimp only at h
    split at h
    · next hc =>
      cases h
      exact ⟨hc, rfl⟩
    · split at h
      · next hc =>
        cases h
        exact ⟨trivial, by rw [hc]; rfl⟩
      · split at h
        · next family d text' hfamily =>
          obtain ⟨direction, hdirection, hverb⟩ := Option.map_eq_some_iff.mp h
          cases hverb
          refine ⟨trivial, ?_⟩
          rw [Family.eq_letter_of_ofLetter? hfamily, Direction.eq_letter_of_ofLetter? hdirection]
          rfl
        · cases h

lemma isKnown_of_mem_tokens {text : List Char} {token : Token Numeral}
    (h : token ∈ tokens text) : token.verb.IsKnown := by
  induction text with
  | nil => cases h
  | cons c text ih =>
    rw [tokens_cons, List.mem_append] at h
    rcases h with h | h
    · obtain ⟨⟨verb, rest⟩, hread, rfl⟩ := Option.map_eq_some_iff.mp (Option.mem_toList.mp h)
      exact (Verb.of_read?_eq_some hread).1
    · exact ih h

/-- The only token that starts in a verb is the one that starts with it. -/
lemma tokens_verb_append {verb : Verb} (hverb : verb.IsKnown) (text : List Char) :
    tokens (verb.render ++ text) = ⟨verb, readArgument text⟩ :: tokens text := by
  have hread : Token.read? (verb.render ++ text) = some ⟨verb, readArgument text⟩ := by
    rw [Token.read?, Verb.read?_render hverb, Option.map_some]
  cases verb with
  | instruction char =>
    simp only [Verb.render, List.cons_append, List.nil_append] at hread ⊢
    rw [tokens_cons, hread]
    rfl
  | set =>
    simp only [Verb.render, List.cons_append, List.nil_append] at hread ⊢
    rw [tokens_cons, hread]
    rfl
  | transfer family direction =>
    simp only [Verb.render, List.cons_append, List.nil_append] at hread ⊢
    rw [tokens_cons, hread, tokens_cons, read?_eq_none (not_startsToken_letter direction)]
    rfl

/-! ### Arguments -/

variable {u v w x y : List Char}

/-- A text that is at its end or goes on with a token. -/
def StartsToken (text : List Char) : Prop := ∀ c ∈ text.head?, startsToken c = true

lemma startsToken_nil : StartsToken [] := by simp [StartsToken]

/-- Where a token starts, no numeral goes on. -/
lemma takeWhile_isDigit_eq_nil {text : List Char} (h : StartsToken text) :
    text.takeWhile Char.isDigit = [] := by
  cases text with
  | nil => rfl
  | cons c text =>
    have hc := not_isDigit_of_startsToken (h c rfl)
    simp [hc]

/-- A verb without digits behind it has the argument `1`. -/
lemma readArgument_of_startsToken {text : List Char} (h : StartsToken text) :
    readArgument text = .one := by
  have hdrop : text.dropWhile (fun c => !c.isDigit && !startsToken c) = text := by
    cases text with
    | nil => rfl
    | cons c text => simp [h c rfl]
  simp only [readArgument, hdrop, takeWhile_isDigit_eq_nil h]
  rfl

/-- An argument that starts with a digit goes on with the digits behind it. -/
lemma readArgument_digit_cons {c : Char} (hc : c.isDigit = true) (text : List Char) :
    readArgument (c :: text) =
      (Numeral.ofText? (c :: text.takeWhile Char.isDigit)).getD .one := by
  simp [readArgument, hc]

/-- Digits are read as the numeral that they write. -/
lemma readArgument_digits (numeral : Numeral) : readArgument numeral.digits = numeral := by
  obtain ⟨c, digits, hdigits⟩ := List.exists_cons_of_ne_nil numeral.digits_ne_nil
  have hall : ∀ d ∈ c :: digits, d.isDigit = true := by
    rw [← hdigits]
    exact numeral.isDigit_of_mem
  obtain ⟨hc, htail⟩ := List.forall_mem_cons.mp hall
  rw [hdigits, readArgument_digit_cons hc, List.takeWhile_eq_self_iff.mpr htail, ← hdigits,
    Numeral.ofText?_digits, Option.getD_some]

/-- A verb with at most digits behind it is one token. -/
lemma tokens_render_elim {verb : Verb} (hverb : verb.IsKnown) (numeral : Option Numeral) :
    tokens (verb.render ++ numeral.elim [] Numeral.digits) = [⟨verb, numeral.getD .one⟩] := by
  cases numeral with
  | none => exact tokens_verb_append hverb []
  | some numeral =>
    show tokens (verb.render ++ numeral.digits) = [⟨verb, numeral⟩]
    rw [tokens_verb_append hverb, readArgument_digits, tokens_digits]

/-- A text of characters that are no digits and start no token. -/
def IsComment (text : List Char) : Prop :=
  ∀ c ∈ text, c.isDigit = false ∧ startsToken c = false

instance (text : List Char) : Decidable (IsComment text) :=
  decidable_of_iff (text.all (fun c => !c.isDigit && !startsToken c) = true) (by simp [IsComment])

lemma tokens_comment_append (hw : IsComment w) (text : List Char) :
    tokens (w ++ text) = tokens text :=
  tokens_append (fun c hc => (hw c hc).2) text

/-- An argument is looked for behind comments. -/
lemma readArgument_comment_append (hw : IsComment w) (text : List Char) :
    readArgument (w ++ text) = readArgument text := by
  have hskip : ∀ c ∈ w, (!c.isDigit && !startsToken c) = true := by
    intro c hc
    obtain ⟨hdigit, hstart⟩ := hw c hc
    simp [hdigit, hstart]
  simp only [readArgument, List.dropWhile_append_of_pos hskip]

/-! ### Tokens in front of other texts -/

/-- A text that does not start with the letter of a direction. -/
def LacksDirection (text : List Char) : Prop := ∀ c ∈ text.head?, Direction.ofLetter? c = none

lemma StartsToken.lacksDirection (h : StartsToken v) : LacksDirection v := by
  intro c hc
  rw [Option.eq_none_iff_forall_ne_some]
  intro direction hdirection
  have hstart := h c hc
  rw [Direction.eq_letter_of_ofLetter? hdirection, not_startsToken_letter] at hstart
  cases hstart

/-- The letter of a family starts no token without a direction. -/
lemma Token.read?_eq_none_of_lacksDirection {family : Family} {text : List Char}
    (h : LacksDirection text) : Token.read? (family.letter :: text) = none := by
  have hverb : Verb.read? (family.letter :: text) = none := by
    cases text with
    | nil => cases family <;> rfl
    | cons d text =>
      have hd := h d rfl
      cases family <;>
        simp [Verb.read?, Family.letter, Family.ofLetter?, Instruction.ofChar?, hd]
  rw [Token.read?, hverb, Option.map_none]

/-- In front of `x` and in front of `y`, the text `u` is read alike. -/
structure Interchangeable (u x y : List Char) : Prop where
  /-- An argument that is still looked for is the same. -/
  argument : readArgument x = readArgument y
  /-- A numeral at the end goes on with the same digits. -/
  digits : ∀ c ∈ u.getLast?, c.isDigit = true →
    x.takeWhile Char.isDigit = y.takeWhile Char.isDigit
  /-- The letter of a family at the end meets no direction. -/
  direction : ∀ c ∈ u.getLast?, (Family.ofLetter? c).isSome = true →
    LacksDirection x ∧ LacksDirection y

namespace Interchangeable

variable {c : Char}

lemma tail (h : Interchangeable (c :: u) x y) : Interchangeable u x y := by
  have hlast : ∀ d ∈ u.getLast?, d ∈ (c :: u).getLast? := by
    intro d hd
    rw [Option.mem_def] at hd ⊢
    rw [List.getLast?_cons, hd, Option.getD_some]
  exact ⟨h.argument, fun d hd => h.digits d (hlast d hd), fun d hd => h.direction d (hlast d hd)⟩

/-- Behind a digit, the numeral goes on with the same digits. -/
lemma takeWhile_eq (h : Interchangeable (c :: u) x y) (hc : c.isDigit = true) :
    (u ++ x).takeWhile Char.isDigit = (u ++ y).takeWhile Char.isDigit := by
  induction u generalizing c with
  | nil => exact h.digits c rfl hc
  | cons d u ih =>
    by_cases hd : d.isDigit = true
    · simp [hd, ih h.tail hd]
    · simp [hd]

/-- The argument is the same for a verb that stands right in front of the text. -/
lemma readArgument_eq (h : Interchangeable u x y) :
    readArgument (u ++ x) = readArgument (u ++ y) := by
  induction u with
  | nil => exact h.argument
  | cons c u ih =>
    rw [List.cons_append, List.cons_append]
    cases hstart : startsToken c with
    | true =>
      have hstarts : ∀ text, StartsToken (c :: text) := by
        rintro text d ⟨⟩
        exact hstart
      rw [readArgument_of_startsToken (hstarts _), readArgument_of_startsToken (hstarts _)]
    | false =>
      cases hdigit : c.isDigit with
      | true =>
        rw [readArgument_digit_cons hdigit, readArgument_digit_cons hdigit,
          h.takeWhile_eq hdigit]
      | false =>
        have hcomment : IsComment [c] := by simpa [IsComment] using ⟨hdigit, hstart⟩
        have hskip := readArgument_comment_append hcomment
        exact (hskip (u ++ x)).trans ((ih h.tail).trans (hskip (u ++ y)).symm)

/-- The token that the text starts with is the same. -/
lemma read?_eq (h : Interchangeable (c :: u) x y) :
    Token.read? (c :: (u ++ x)) = Token.read? (c :: (u ++ y)) := by
  cases hinstruction : Instruction.ofChar? c with
  | some instruction => simp [Token.read?, Verb.read?, hinstruction, h.tail.readArgument_eq]
  | none =>
    by_cases hset : c = '='
    · simp [Token.read?, Verb.read?, hinstruction, if_pos hset, h.tail.readArgument_eq]
    · cases hfamily : Family.ofLetter? c with
      | none => simp [Token.read?, Verb.read?, hinstruction, hset, hfamily]
      | some family =>
        cases u with
        | nil =>
          obtain ⟨hx, hy⟩ := h.direction c rfl (by rw [hfamily]; rfl)
          rw [Family.eq_letter_of_ofLetter? hfamily, List.nil_append, List.nil_append,
            Token.read?_eq_none_of_lacksDirection hx, Token.read?_eq_none_of_lacksDirection hy]
        | cons d u =>
          cases hd : Direction.ofLetter? d with
          | none => simp [Token.read?, Verb.read?, hinstruction, hset, hfamily, hd]
          | some direction =>
            simp [Token.read?, Verb.read?, hinstruction, hset, hfamily, hd,
              h.tail.tail.readArgument_eq]

end Interchangeable

/-- A text has the same tokens in front of two texts between which it makes no difference. -/
theorem exists_tokens_append (h : Interchangeable u x y) :
    ∃ ts, tokens (u ++ x) = ts ++ tokens x ∧ tokens (u ++ y) = ts ++ tokens y := by
  induction u with
  | nil => exact ⟨[], rfl, rfl⟩
  | cons c u ih =>
    obtain ⟨ts, hx, hy⟩ := ih h.tail
    refine ⟨(Token.read? (c :: (u ++ x))).toList ++ ts, ?_, ?_⟩
    · rw [List.cons_append, tokens_cons, hx, List.append_assoc]
    · rw [List.cons_append, tokens_cons, hy, h.read?_eq, List.append_assoc]

/-- In front of a token, a text has the tokens that it has on its own. -/
theorem tokens_append_of_startsToken (hv : StartsToken v) (u : List Char) :
    tokens (u ++ v) = tokens u ++ tokens v := by
  have hend := startsToken_nil
  have halike : Interchangeable u v [] := by
    refine ⟨?_, fun _ _ _ => ?_, fun _ _ _ => ⟨hv.lacksDirection, hend.lacksDirection⟩⟩
    · rw [readArgument_of_startsToken hv, readArgument_of_startsToken hend]
    · rw [takeWhile_isDigit_eq_nil hv, takeWhile_isDigit_eq_nil hend]
  obtain ⟨ts, htokens, halone⟩ := exists_tokens_append halike
  have hnil : tokens [] = [] := rfl
  rw [hnil, List.append_nil, List.append_nil] at halone
  rw [htokens, halone]

/-- A comment between two texts changes no token, unless it stands behind the letter of a family
or divides a numeral. -/
theorem tokens_append_comment (hw : IsComment w) (hu : ∀ c ∈ u.getLast?, Family.ofLetter? c = none)
    (huv : ∀ c ∈ u.getLast?, c.isDigit = true → ∀ d ∈ v.head?, d.isDigit = false) :
    tokens (u ++ (w ++ v)) = tokens (u ++ v) := by
  have hdigits : ∀ c ∈ u.getLast?, c.isDigit = true →
      (w ++ v).takeWhile Char.isDigit = v.takeWhile Char.isDigit := by
    intro c hc hdigit
    have hv : v.takeWhile Char.isDigit = [] := by
      cases v with
      | nil => rfl
      | cons d v => simp [huv c hc hdigit d rfl]
    cases w with
    | nil => rfl
    | cons d w =>
      have hd := (hw d List.mem_cons_self).1
      simp [hv, hd]
  have halike : Interchangeable u (w ++ v) v := by
    refine ⟨readArgument_comment_append hw v, hdigits, fun c hc hfamily => ?_⟩
    rw [hu c hc] at hfamily
    cases hfamily
  obtain ⟨ts, hcomment, hbare⟩ := exists_tokens_append halike
  rw [hcomment, hbare, tokens_comment_append hw]

end TapeTower.Alpha
