import TapeTower.Proofs.Alpha.Passes
import TapeTower.Proofs.Beta.Meaning

/-!
# Compiled trees do what the trees mean

A tree is compiled to tokens, their text is lowered to program text, and `execute`
minimizes this text before it runs. The proof follows the same steps. What is emitted for
a tree is `Grouped`: its loop brackets come in pairs, and each token can be read back. A
meaning of the tree tells how the program texts of its tokens are carried out without a
move being stopped (`Eval.carries`), and such a program is executed as it was written
(`exists_execute_of_carries`).

The result at the end of the module is that whatever a tree means, the lowered tree does.
-/

namespace TapeTower.Beta

open Alpha Machine

/-! ### Emitted tokens -/

/-- The tokens of calls: tokens that are no brackets, and loops. -/
inductive Grouped : List (Token UInt32) → Prop
  | nil : Grouped []
  | single {token : Token UInt32} (hknown : token.verb.IsKnown)
      (hbegin : token.verb ≠ .instruction '[') (hend : token.verb ≠ .instruction ']') :
      Grouped [token]
  | append {ts us : List (Token UInt32)} (hts : Grouped ts) (hus : Grouped us) :
      Grouped (ts ++ us)
  | loop {ts : List (Token UInt32)} (hts : Grouped ts) :
      Grouped (once '[' :: ts ++ [once ']'])

lemma grouped_of_counted {verb : Verb} {reading : Numeral → UInt32} {function : Function}
    {arguments : List Tree} {ts : List (Token UInt32)}
    (h : counted verb reading function arguments = .ok ts) (hknown : verb.IsKnown)
    (hbegin : verb ≠ .instruction '[') (hend : verb ≠ .instruction ']') : Grouped ts := by
  obtain ⟨n, -, hts⟩ := bind_eq_ok_iff.mp h
  cases hts
  exact .single hknown hbegin hend

lemma verb_of_relative {family : Family} {distance : Int} {token : Token UInt32}
    (h : Token.relative family distance = .ok token) :
    ∃ direction, token.verb = .transfer family direction := by
  unfold Token.relative at h
  split at h
  · cases h
    exact ⟨_, rfl⟩
  · cases h

lemma grouped_of_relative {family : Family} {function : Function} {arguments : List Tree}
    {ts : List (Token UInt32)} (h : relative family function arguments = .ok ts) :
    Grouped ts := by
  obtain ⟨distance, -, h⟩ := bind_eq_ok_iff.mp h
  obtain ⟨token, htoken, hts⟩ := bind_eq_ok_iff.mp h
  cases hts
  obtain ⟨direction, hverb⟩ := verb_of_relative htoken
  refine .single ?_ ?_ ?_ <;> rw [hverb]
  · trivial
  · simp
  · simp

mutual

/-- The tokens of a call are grouped. -/
theorem grouped_of_tokensOfCall : ∀ (t : Tree) {ts : List (Token UInt32)},
    tokensOfCall t = .ok ts → Grouped ts
  | .atom _, _, h => by
    rw [tokensOfCall] at h
    cases h
  | .list [], _, h => by
    rw [tokensOfCall] at h
    cases h
  | .list (.list _ :: _), _, h => by
    rw [tokensOfCall] at h
    cases h
  | .list (.atom name :: arguments), ts, h => by
    rw [tokensOfCall] at h
    cases hname : Function.ofName? (String.ofList name) with
    | none =>
      rw [hname] at h
      cases h
    | some function =>
      rw [hname] at h
      cases function with
      | progn => exact grouped_of_tokensOfCalls arguments h
      | whileNonzero =>
        obtain ⟨us, hus, hts⟩ := bind_eq_ok_iff.mp h
        cases hts
        exact .loop (grouped_of_tokensOfCalls arguments hus)
      | input =>
        cases h
        exact .single rfl (by decide) (by decide)
      | output =>
        cases h
        exact .single rfl (by decide) (by decide)
      | setTo => exact grouped_of_counted h trivial (by decide) (by decide)
      | addRelative => exact grouped_of_relative h
      | subRelative => exact grouped_of_relative h
      | moveRelative => exact grouped_of_relative h
      | increment => exact grouped_of_counted h rfl (by decide) (by decide)
      | decrement => exact grouped_of_counted h rfl (by decide) (by decide)
      | right => exact grouped_of_counted h rfl (by decide) (by decide)
      | left => exact grouped_of_counted h rfl (by decide) (by decide)

/-- The tokens of some calls are grouped. -/
theorem grouped_of_tokensOfCalls : ∀ (calls : List Tree) {ts : List (Token UInt32)},
    tokensOfCalls calls = .ok ts → Grouped ts
  | [], _, h => by
    rw [tokensOfCalls] at h
    cases h
    exact .nil
  | call :: calls, _, h => by
    rw [tokensOfCalls] at h
    obtain ⟨ts, hts, h⟩ := bind_eq_ok_iff.mp h
    obtain ⟨us, hus, h⟩ := bind_eq_ok_iff.mp h
    cases h
    exact .append (grouped_of_tokensOfCall call hts) (grouped_of_tokensOfCalls calls hus)

end

/-- The program text of a loop is the one of its body, between brackets. -/
lemma code_loop (ts : List (Token UInt32)) :
    (once '[' :: ts ++ [once ']']).flatMap Token.code = loopText (ts.flatMap Token.code) := by
  simp [List.flatMap_append, once, Token.code, loopText]

namespace Grouped

variable {ts : List (Token UInt32)}

/-- Grouped tokens can be read back. -/
lemma isKnown (h : Grouped ts) : ∀ token ∈ ts, token.verb.IsKnown := by
  induction h with
  | nil => simp
  | single hknown => simpa using hknown
  | append _ _ ihts ihus =>
    rw [List.forall_mem_append]
    exact ⟨ihts, ihus⟩
  | loop _ ih =>
    rw [List.forall_mem_append, List.forall_mem_cons]
    exact ⟨⟨rfl, ih⟩, by simp [once, Verb.IsKnown, Instruction.ofChar?]⟩

/-- The program text of grouped tokens is balanced. -/
lemma balanced_code (h : Grouped ts) : Delimiters.loop.Balanced (ts.flatMap Token.code) := by
  induction h with
  | nil => exact .nil
  | @single token _ hbegin hend =>
    rw [List.flatMap_singleton]
    exact balanced_code_of_ne hbegin hend
  | append _ _ ihts ihus =>
    rw [List.flatMap_append]
    exact ihts.append ihus
  | loop _ ih =>
    rw [code_loop]
    exact .group ih .nil

end Grouped

/-! ### Effects -/

variable {t : Tree} {function : Function} {arguments : List Tree} {m : Machine} {e : Ending}
  {tokens : List (Token UInt32)}

/-- A verb with a count does what the program text for this count does. -/
lemma carries_of_counted {n : Numeral} {verb : Verb} {reading : Numeral → UInt32}
    (hn : countArgument function arguments = .ok n)
    (htokens : counted verb reading function arguments = .ok tokens)
    (hrun : Carries .free (Token.code ⟨verb, reading n⟩) m e) :
    Carries .free (tokens.flatMap Token.code) m e := by
  obtain ⟨_, hn', hts⟩ := bind_eq_ok_iff.mp htokens
  obtain rfl := Except.ok.inj (hn.symm.trans hn')
  cases hts
  rwa [List.flatMap_singleton]

/-- The functions that carry a cell over compile to the command of their family. -/
lemma tokensOfCall_family {family : Family} (ht : Calls t function arguments)
    (hfamily : function.family? = some family) :
    tokensOfCall t = relative family function arguments := by
  obtain ⟨name, rfl, hname⟩ := ht
  rw [tokensOfCall, hname]
  cases function <;> cases hfamily <;> rfl

/-- A distance that compiles is the argument of the token, with its sign as direction. -/
lemma eq_of_relative {family : Family} {distance : Int}
    (hd : distanceArgument function arguments = .ok distance)
    (h : relative family function arguments = .ok tokens) :
    distance.natAbs ≤ largest ∧
      tokens = [⟨.transfer family (if 0 < distance then .forward else .backward),
        UInt32.ofNat distance.natAbs⟩] := by
  obtain ⟨_, hd', h⟩ := bind_eq_ok_iff.mp h
  obtain rfl := Except.ok.inj (hd.symm.trans hd')
  obtain ⟨token, htoken, hts⟩ := bind_eq_ok_iff.mp h
  cases hts
  unfold Token.relative at htoken
  split at htoken
  · next hle =>
    cases htoken
    exact ⟨hle, rfl⟩
  · cases htoken

lemma toNat_saturating (n : Numeral) : n.saturating.toNat = min n.value largest := by
  rw [n.saturating_eq, toNat_ofNat_of_le_largest (Nat.min_le_right _ _)]

/-- The program text of a call has the effect of its function. -/
lemma Effect.carries (heffect : Effect function arguments m e) (ht : Calls t function arguments)
    (hsink : m.sink.NeverFails) (htokens : tokensOfCall t = .ok tokens) :
    Carries .free (tokens.flatMap Token.code) m e := by
  cases heffect with
  | stay _ hfamily hd =>
    rw [tokensOfCall_family ht hfamily] at htokens
    obtain ⟨-, rfl⟩ := eq_of_relative hd htokens
    exact carries_nil m
  | @carry _ family _ distance _ index hfamily hd hne hto hindex =>
    rw [tokensOfCall_family ht hfamily] at htokens
    obtain ⟨hle, rfl⟩ := eq_of_relative hd htokens
    have htoNat := toNat_ofNat_of_le_largest hle
    rw [List.flatMap_singleton]
    refine carries_transfer ?_ (by rw [htoNat]; exact Int.natAbs_ne_zero.mpr hne) hindex
    rw [htoNat]
    split <;> simp only [Apart] <;> omega
  | input =>
    obtain ⟨name, rfl, hname⟩ := ht
    rw [tokensOfCall, hname] at htokens
    cases htokens
    rw [← Machine.read_of_neverFails hsink]
    exact carries_singleton (by simp [IsPlain]) (not_clamps (by decide) (by decide) m)
  | output =>
    obtain ⟨name, rfl, hname⟩ := ht
    rw [tokensOfCall, hname] at htokens
    cases htokens
    rw [← Machine.print_of_neverFails hsink]
    exact carries_singleton (by simp [IsPlain]) (not_clamps (by decide) (by decide) m)
  | @setTo _ n _ hn =>
    obtain ⟨name, rfl, hname⟩ := ht
    rw [tokensOfCall, hname] at htokens
    rw [← n.wrapping_eq]
    exact carries_of_counted hn htokens (carries_set n.wrapping m)
  | @increment _ n _ hn =>
    obtain ⟨name, rfl, hname⟩ := ht
    rw [tokensOfCall, hname] at htokens
    have hplus := carries_increments n.wrapping.toNat m
    rw [UInt32.ofNat_toNat, n.wrapping_eq] at hplus
    refine carries_of_counted hn htokens ?_
    rw [n.wrapping_eq]
    exact hplus
  | @decrement _ n _ hn =>
    obtain ⟨name, rfl, hname⟩ := ht
    rw [tokensOfCall, hname] at htokens
    have hminus := carries_decrements n.wrapping.toNat m
    rw [UInt32.ofNat_toNat, n.wrapping_eq] at hminus
    refine carries_of_counted hn htokens ?_
    rw [n.wrapping_eq]
    exact hminus
  | @right _ n _ hn hto =>
    obtain ⟨name, rfl, hname⟩ := ht
    rw [tokensOfCall, hname] at htokens
    refine carries_of_counted hn htokens ?_
    rw [Token.code, toNat_saturating]
    exact carries_right hto
  | @left _ n _ hn hto =>
    obtain ⟨name, rfl, hname⟩ := ht
    rw [tokensOfCall, hname] at htokens
    refine carries_of_counted hn htokens ?_
    rw [Token.code, toNat_saturating]
    exact carries_left hto

/-! ### Trees -/

lemma calls_progn (calls : List Tree) : Calls (Tree.progn calls) .progn calls :=
  ⟨_, rfl, by decide⟩

lemma tokensOfCall_progn (calls : List Tree) :
    tokensOfCall (Tree.progn calls) = tokensOfCalls calls := by
  obtain ⟨name, htree, hname⟩ := calls_progn calls
  rw [htree, tokensOfCall, hname]

/-- The tokens of `progn` are those of its first call and those of the others. -/
lemma exists_of_progn_cons {call : Tree} {calls : List Tree} (ht : Calls t .progn (call :: calls))
    (htokens : tokensOfCall t = .ok tokens) :
    ∃ ts us, tokensOfCall call = .ok ts ∧ tokensOfCall (Tree.progn calls) = .ok us ∧
      tokens = ts ++ us := by
  obtain ⟨name, rfl, hname⟩ := ht
  rw [tokensOfCall, hname] at htokens
  dsimp only at htokens
  rw [tokensOfCalls] at htokens
  obtain ⟨ts, hts, hrest⟩ := bind_eq_ok_iff.mp htokens
  obtain ⟨us, hus, htokens⟩ := bind_eq_ok_iff.mp hrest
  cases htokens
  exact ⟨ts, us, hts, (tokensOfCall_progn calls).trans hus, rfl⟩

/-- The tokens of `while-n-0` are those of its body, between brackets. -/
lemma exists_of_while {body : List Tree} (ht : Calls t .whileNonzero body)
    (htokens : tokensOfCall t = .ok tokens) :
    ∃ ts, tokensOfCall (Tree.progn body) = .ok ts ∧
      tokens = once '[' :: ts ++ [once ']'] := by
  obtain ⟨name, rfl, hname⟩ := ht
  rw [tokensOfCall, hname] at htokens
  obtain ⟨ts, hts, htokens⟩ := bind_eq_ok_iff.mp htokens
  cases htokens
  exact ⟨ts, (tokensOfCall_progn body).trans hts, rfl⟩

/-- What a tree means is what the program text of its tokens does, and no move is stopped
on the way. -/
theorem Eval.carries (h : Eval t m e) (hsink : m.sink.NeverFails)
    (htokens : tokensOfCall t = .ok tokens) : Carries .free (tokens.flatMap Token.code) m e := by
  induction h generalizing tokens with
  | effect ht heffect => exact heffect.carries ht hsink htokens
  | prognNil m ht =>
    obtain ⟨name, rfl, hname⟩ := ht
    rw [tokensOfCall, hname] at htokens
    cases htokens
    exact carries_nil m
  | prognCons ht hcall _ ihcall ihcalls =>
    obtain ⟨ts, us, hts, hus, rfl⟩ := exists_of_progn_cons ht htokens
    rw [List.flatMap_append]
    exact (ihcall hsink hts).append (ihcalls (hcall.neverFails hsink) hus)
  | prognFault ht _ ih =>
    obtain ⟨ts, us, hts, -, rfl⟩ := exists_of_progn_cons ht htokens
    rw [List.flatMap_append]
    exact (ih hsink hts).append_of_fault _
  | whileEnd ht hcell =>
    obtain ⟨ts, hts, rfl⟩ := exists_of_while ht htokens
    rw [code_loop]
    exact carries_loop_skip (grouped_of_tokensOfCall _ hts).balanced_code hcell (carries_nil _)
  | whileAgain ht hcell hbody _ ihbody ihagain =>
    have hagain := ihagain (hbody.neverFails hsink) htokens
    obtain ⟨ts, hts, rfl⟩ := exists_of_while ht htokens
    rw [code_loop] at hagain ⊢
    exact carries_loop_again (grouped_of_tokensOfCall _ hts).balanced_code hcell
      (ihbody hsink hts) hagain
  | whileFault ht hcell _ ih =>
    obtain ⟨ts, hts, rfl⟩ := exists_of_while ht htokens
    rw [code_loop]
    exact carries_loop_fault (grouped_of_tokensOfCall _ hts).balanced_code hcell (ih hsink hts)

/-- If a tree compiles, then its text can be lowered, and whatever the tree means, `execute`
does with the lowered text: it ends with the same result, the same tape, the same input
left and the same output. -/
theorem exists_execute_of_eval {tree : Tree} {text : List Char} {tape : Tape} {input : Input}
    {sink : Sink} {e : Ending} (hcompile : compile tree = .ok text) (hsink : sink.NeverFails)
    (heval : Eval tree ⟨tape, input, sink, ""⟩ e) :
    ∃ code, Alpha.lower text = .ok code ∧
      ∃ fuel, execute fuel code 0 tape input sink = some ⟨e.1.map fun _ => e.2.printed, e.2⟩ := by
  obtain ⟨tokens, htokens, rfl⟩ := map_eq_ok_iff.mp hcompile
  have hgrouped := grouped_of_tokensOfCall tree htokens
  refine ⟨_, lower_flatMap_render hgrouped.isKnown, ?_⟩
  rw [← Ending.halt_of_neverFails (heval.neverFails hsink)]
  exact exists_execute_of_carries hgrouped.balanced_code (heval.carries hsink htokens)

/-- A tree that counts two and carries them over leaves them in the other cell. -/
theorem exists_execute_of_eval_carried :
    let tree := Tree.progn [.list [.atom "+".toList, .atom "2".toList],
      .list [.atom "add!-relative".toList]]
    compile tree = .ok "+2af1".toList ∧ Sink.unlimited.NeverFails ∧
      ∃ e, Eval tree ⟨Tape.blank 2, [], Sink.unlimited, ""⟩ e ∧ e.2.tape.cells = #[0, 2] ∧
        ∃ code, Alpha.lower "+2af1".toList = .ok code ∧
          ∃ fuel, execute fuel code 0 (Tape.blank 2) [] Sink.unlimited =
            some ⟨e.1.map fun _ => e.2.printed, e.2⟩ := by
  intro tree
  have hcompile : compile tree = .ok "+2af1".toList := by rfl
  have hsink : Sink.unlimited.NeverFails := ⟨rfl, rfl⟩
  have hcount : Eval (.list [.atom "+".toList, .atom "2".toList])
      ⟨Tape.blank 2, [], Sink.unlimited, ""⟩ (.ok (), _) :=
    .effect ⟨_, rfl, by decide⟩ (.increment (n := .ofNat 2) _ rfl)
  have hcarry : Eval (.list [.atom "add!-relative".toList])
      ((⟨Tape.blank 2, [], Sink.unlimited, ""⟩ : Machine).store 2) (.ok (), _) :=
    .effect ⟨_, rfl, by decide⟩ (@Effect.carry .addRelative .add [] 1 _ 1 rfl rfl (by decide)
      (by decide) (by decide))
  have heval := Eval.prognCons (calls_progn _) hcount
    (.prognCons (calls_progn _) hcarry (.prognNil _ (calls_progn _)))
  exact ⟨hcompile, hsink, _, heval, rfl, exists_execute_of_eval hcompile hsink heval⟩

end TapeTower.Beta
