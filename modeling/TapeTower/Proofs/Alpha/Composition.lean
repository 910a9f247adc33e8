import TapeTower.Proofs.Alpha.Passes

/-!
# Passes over parts of a text

A pass replaces each token by its program text and drops all else. So it can be made part by part
where the tokens are those of the parts, and it does not see what changes no token.

* In front of a token a text can be cut (`pass_append_of_startsToken`).
* A comment can be left out, unless it stands between a family and its direction or divides a
  numeral (`pass_append_comment_append`).
* Tokens can be written with comments around them, and the pass gives the program texts of these
  tokens (`pass_append_flatMap_spaced`).
-/

namespace TapeTower.Alpha

variable {u v w : List Char}

/-- A pass is made part by part if the tokens are those of the parts. The first part that fails
decides the fault. -/
lemma passWith_append (table : TemplateTable) (h : tokens (u ++ v) = tokens u ++ tokens v) :
    passWith table (u ++ v) = do return (← passWith table u) ++ (← passWith table v) := by
  unfold passWith
  rw [h, List.mapM_append]
  cases (tokens u).mapM (Token.lower table) with
  | error fault => rfl
  | ok codes =>
    cases (tokens v).mapM (Token.lower table) with
    | error fault => rfl
    | ok codes' => exact congrArg Except.ok List.flatten_append

/-- A text can be cut in front of a token: what the two parts are lowered to is put together, the
fault of the first part comes first, and after it that of the second. -/
theorem pass_append_of_startsToken (hv : StartsToken v) (u : List Char) :
    pass (u ++ v) = (do return (← pass u) ++ (← pass v)) ∧
      lower (u ++ v) = do return (← lower u) ++ (← lower v) := by
  have hpass : pass (u ++ v) = do return (← pass u) ++ (← pass v) :=
    passWith_append Template.standard (tokens_append_of_startsToken hv u)
  refine ⟨hpass, ?_⟩
  rw [lower_eq_pass, lower_eq_pass, lower_eq_pass]
  exact hpass

/-- A letter that waits for a direction does not find it in the token behind it. Of two numerals
that are too large, the first is the fault. In front of a direction a text cannot be cut. -/
theorem pass_append_of_startsToken_waiting :
    StartsToken "sb1".toList ∧ pass "+ for asb1".toList = .ok "+[-<->]".toList ∧
      StartsToken ",4294967297".toList ∧
      pass ".4294967296 or ,4294967297".toList = .error (.numeralOutOfRange "4294967296") ∧
      pass "af1".toList ≠ do return (← pass "a".toList) ++ (← pass "f1".toList) := by
  have hsub : StartsToken "sb1".toList := by
    rintro c ⟨⟩
    rfl
  have hread : StartsToken ",4294967297".toList := by
    rintro c ⟨⟩
    rfl
  have hpass : pass "sb1".toList = .ok "[-<->]".toList :=
    @pass_of_tokens_eq _ [⟨.transfer .sub .backward, 1⟩] rfl
  have hadd : pass "af1".toList = .ok "[->+<]".toList :=
    @pass_of_tokens_eq _ [⟨.transfer .add .forward, 1⟩] rfl
  obtain ⟨hwaiting, -⟩ := pass_append_of_startsToken hsub "+ for a".toList
  obtain ⟨hfault, -⟩ := pass_append_of_startsToken hread ".4294967296 or ".toList
  refine ⟨hsub, ?_, hread, hfault, ?_⟩
  · rw [hpass] at hwaiting
    exact hwaiting
  · rw [hadd]
    intro h
    cases h

/-- A comment between two texts can be left out, unless the first ends with the letter of a family,
or the first ends with a digit and the second starts with one. -/
theorem pass_append_comment_append (hw : IsComment w)
    (hu : ∀ c ∈ u.getLast?, Family.ofLetter? c = none)
    (huv : ∀ c ∈ u.getLast?, c.isDigit = true → ∀ d ∈ v.head?, d.isDigit = false) :
    pass (u ++ w ++ v) = pass (u ++ v) ∧ lower (u ++ w ++ v) = lower (u ++ v) := by
  have htokens : tokens (u ++ w ++ v) = tokens (u ++ v) := by
    rw [List.append_assoc]
    exact tokens_append_comment hw hu huv
  have hpass : pass (u ++ w ++ v) = pass (u ++ v) := by
    rw [pass, pass, passWith, passWith, htokens]
  exact ⟨hpass, by rw [lower_eq_pass, lower_eq_pass, hpass]⟩

/-- A comment with the letters of both directions stands between a token and its argument. Between a
family and its direction, or within a numeral, a comment cannot be left out. -/
theorem pass_append_comment_append_between :
    IsComment " für b".toList ∧
      pass ("=".toList ++ " für b".toList ++ "2.".toList) = pass ("=".toList ++ "2.".toList) ∧
      pass "=2.".toList = .ok "[-]++.".toList ∧
      pass "a f1".toList ≠ pass "af1".toList ∧ pass "+1 2".toList ≠ pass "+12".toList := by
  have hcomment : IsComment " für b".toList := by decide
  obtain ⟨hpass, -⟩ := @pass_append_comment_append "=".toList "2.".toList " für b".toList hcomment
    (by rintro c ⟨⟩; rfl) (by rintro c ⟨⟩ h; cases h)
  have hadd : pass "af1".toList = .ok "[->+<]".toList :=
    @pass_of_tokens_eq _ [⟨.transfer .add .forward, 1⟩] rfl
  have hnone : pass "a f1".toList = .ok [] := rfl
  refine ⟨hcomment, hpass, rfl, ?_, ?_⟩
  · rw [hadd, hnone]
    intro h
    cases h
  · intro h
    cases h

/-- Tokens that are written down, with comments in front of them and behind each of them, are read
back as they were. A pass gives their program texts, one after the other, which are those that the
templates unfold into. -/
theorem pass_append_flatMap_spaced (hw : IsComment w) {items : List (Token UInt32 × List Char)}
    (hknown : ∀ item ∈ items, item.1.verb.IsKnown) (hcomment : ∀ item ∈ items, IsComment item.2) :
    let text := w ++ items.flatMap fun item => item.1.render ++ item.2
    tokens text = items.map (fun item => item.1.numeral) ∧
      pass text = .ok (items.flatMap fun item => item.1.code) ∧
      lower text = .ok (items.flatMap fun item => item.1.code) ∧
      ∀ item ∈ items, Token.expand Template.standard item.1 = .ok item.1.code := by
  intro text
  have htokens : tokens text = items.map fun item => item.1.numeral :=
    (tokens_comment_append hw _).trans (tokens_flatMap_spaced hknown hcomment)
  have hpass : pass text = .ok (items.flatMap fun item => item.1.code) := by
    have hread : tokens text = (items.map Prod.fst).map Token.numeral := by
      rw [htokens, List.map_map]
      rfl
    rw [pass_of_tokens_eq hread, List.flatMap_map]
  exact ⟨htokens, hpass, (lower_eq_pass text).trans hpass, fun item _ => item.1.expand_eq⟩

/-- A count that is left out, a distance of zero and a command within a command are read back
through prose that holds the letters of both directions. -/
theorem pass_append_flatMap_spaced_prose :
    let items : List (Token UInt32 × List Char) :=
      [(⟨.instruction '+', 3⟩, " b; ".toList), (⟨.instruction '.', 1⟩, []),
        (⟨.transfer .move .backward, 2⟩, []), (⟨.set, 0⟩, []),
        (⟨.transfer .sub .forward, 0⟩, " b; ".toList)]
    IsComment "für ".toList ∧ (∀ item ∈ items, item.1.verb.IsKnown) ∧
      (∀ item ∈ items, IsComment item.2) ∧
      pass "für +3 b; .mb2=0sf0 b; ".toList = .ok "+++.<<[-]>>[-<<+>>][-]".toList := by
  intro items
  have hcomment : IsComment "für ".toList := by decide
  have hknown : ∀ item ∈ items, item.1.verb.IsKnown := by
    simp [items, Verb.IsKnown, Instruction.ofChar?]
  have hcomments : ∀ item ∈ items, IsComment item.2 := by decide
  obtain ⟨-, hpass, -⟩ := pass_append_flatMap_spaced hcomment hknown hcomments
  exact ⟨hcomment, hknown, hcomments, hpass⟩

end TapeTower.Alpha
