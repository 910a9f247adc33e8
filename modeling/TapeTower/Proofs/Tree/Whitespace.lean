import TapeTower.Proofs.Tree.Blanks
import TapeTower.Proofs.Tree.Faults
import TapeTower.Proofs.Tree.Levels

/-!
# White space inside of a tree

At the ends of a text all white space is dropped, but inside of it only the blank, the line ends
and the tab separate atoms: any other white space, a form feed say, is a character of an atom.
`blankOut` makes a blank of every white space. Normalizing does not notice that the text was
changed (`normalize_map_blankOut`) unless such other white space is left in it, and then a tree is
not read as the same tree. A fault does not depend on it (`Misread.map_blankOut`): only a tree with
too many levels may lose some of them, where an atom at the bottom is nothing but white space.
-/

namespace TapeTower

/-- A fault without the text that it quotes. -/
def Fault.unquoted : Fault → Fault
  | .parse (.trailingContent _) => .parse (.trailingContent "")
  | fault => fault

lemma Fault.unquoted_eq_tooDeeplyNested_iff {fault : Fault} {limit : Nat} :
    fault.unquoted = .parse (.tooDeeplyNested limit) ↔ fault = .parse (.tooDeeplyNested limit) := by
  cases fault with
  | parse fault => cases fault <;> simp [unquoted]
  | _ => simp [unquoted]

namespace Tree

open Delimiters

/-! ### White space as blanks -/

/-- White space becomes a blank. -/
def blankOut (c : Char) : Char := if Text.isBlank c then ' ' else c

lemma isBlank_blankOut (c : Char) : Text.isBlank (blankOut c) = Text.isBlank c := by
  unfold blankOut
  split
  · next h =>
    rw [h]
    decide
  · rfl

lemma ne_paren_of_isBlank {c : Char} (hc : Text.isBlank c = true) : c ≠ '(' ∧ c ≠ ')' := by
  constructor <;> rintro rfl <;> exact absurd hc (by decide)

lemma blankOut_of_isBlank {c : Char} (hc : Text.isBlank c = true) : blankOut c = ' ' := if_pos hc

lemma blankOut_of_not_isBlank {c : Char} (hc : Text.isBlank c = false) : blankOut c = c := by
  simp [blankOut, hc]

lemma blankOut_ne_iff (c : Char) :
    blankOut c ≠ ' ' ∧ blankOut c ≠ ')' ↔ Text.isBlank c = false ∧ c ≠ ')' := by
  cases hc : Text.isBlank c with
  | true => simp [blankOut_of_isBlank hc]
  | false =>
    have hne : c ≠ ' ' := by
      rintro rfl
      exact absurd hc (by decide)
    simp [blankOut_of_not_isBlank hc, hne]

/-- The white space that separates atoms. -/
lemma soften_eq_blank_iff {c : Char} : soften c = ' ' ↔ c ∈ [' ', '\n', '\t', '\r'] := by
  unfold soften
  split
  · next h => simpa using Or.inr h
  · next h =>
    simp only [List.mem_cons, List.not_mem_nil, or_false]
    tauto

lemma soften_blankOut (c : Char) : soften (blankOut c) = blankOut c := by
  cases hc : Text.isBlank c with
  | true =>
    rw [blankOut_of_isBlank hc]
    decide
  | false =>
    rw [blankOut_of_not_isBlank hc, soften, if_neg]
    rintro (rfl | rfl | rfl) <;> exact absurd hc (by decide)

lemma blankOut_soften (c : Char) : blankOut (soften c) = blankOut c := by
  cases hc : Text.isBlank c with
  | true => rw [blankOut_of_isBlank hc, blankOut_of_isBlank (by rw [isBlank_soften, hc])]
  | false =>
    have hsoften := soften_blankOut c
    rw [blankOut_of_not_isBlank hc] at hsoften ⊢
    rw [hsoften, blankOut_of_not_isBlank hc]

lemma normalize_eq_map (text : List Char) : normalize text = (Text.trim text).map soften := by
  rw [normalize_eq, Text.trim_map isBlank_soften]

/-- Making blanks of all white space first only makes blanks of the white space that is left. -/
lemma normalize_map_blankOut (text : List Char) :
    normalize (text.map blankOut) = (normalize text).map blankOut := by
  have hsoften : soften ∘ blankOut = blankOut := funext soften_blankOut
  have hblankOut : blankOut ∘ soften = blankOut := funext blankOut_soften
  rw [normalize_eq_map, normalize_eq_map, Text.trim_map isBlank_blankOut, List.map_map,
    List.map_map, hsoften, hblankOut]

/-- All white space of the text that is not trimmed separates atoms. -/
def Separates (text : List Char) : Prop :=
  ∀ c ∈ Text.trim text, Text.isBlank c = true → c ∈ [' ', '\n', '\t', '\r']

lemma separates_iff {text : List Char} :
    Separates text ↔ ∀ c ∈ normalize text, Text.isBlank c = true → c = ' ' := by
  simp only [Separates, normalize_eq_map, List.forall_mem_map, isBlank_soften, soften_eq_blank_iff]

/-- If all white space separates atoms, it may as well be blanks. -/
lemma Separates.parse_map_blankOut {text : List Char} (h : Separates text) :
    parse (text.map blankOut) = parse text := by
  have hself : (normalize text).map blankOut = normalize text := by
    conv_rhs => rw [← List.map_id (normalize text)]
    refine List.map_congr_left fun c hc => ?_
    cases hblank : Text.isBlank c with
    | true => rw [blankOut_of_isBlank hblank, separates_iff.mp h c hc hblank, id]
    | false => rw [blankOut_of_not_isBlank hblank, id]
  rw [parse, parse, normalize_map_blankOut, hself]

/-! ### Parentheses stay -/

lemma skeleton_map_blankOut (text : List Char) :
    paren.skeleton (text.map blankOut) = paren.skeleton text := by
  refine skeleton_map (fun c => ?_) text
  cases hc : Text.isBlank c with
  | true =>
    rw [blankOut_of_isBlank hc]
    exact Or.inr ⟨not_or.mpr (ne_paren_of_isBlank hc), by decide⟩
  | false => exact Or.inl (blankOut_of_not_isBlank hc)

lemma balanced_map_blankOut_iff {text : List Char} :
    paren.Balanced (text.map blankOut) ↔ paren.Balanced text :=
  balanced_iff_of_skeleton_eq (by decide) (skeleton_map_blankOut text)

lemma rise_blankOut (c : Char) : paren.rise (blankOut c) = paren.rise c := by
  cases hc : Text.isBlank c with
  | true =>
    obtain ⟨hopen, hclose⟩ := ne_paren_of_isBlank hc
    rw [blankOut_of_isBlank hc]
    exact (rise_symbol hopen hclose).symm
  | false => rw [blankOut_of_not_isBlank hc]

/-! ### Faults -/

/-- What is wrong with the top level of a text stays wrong with it. -/
lemma Misread.map_blankOut {text : List Char} {fault : Fault} (h : Misread text fault)
    (hfirst : ∀ c ∈ text.head?, Text.isBlank c = false)
    (hdeep : fault ≠ .parse (.tooDeeplyNested maxDepth)) :
    ∃ fault', Misread (text.map blankOut) fault' ∧ fault'.unquoted = fault.unquoted := by
  cases h with
  | empty => exact ⟨_, .empty, rfl⟩
  | closing s => exact ⟨_, .closing _, rfl⟩
  | @opening s hpartner =>
    have hpartner' : paren.matchIndex ('(' :: s.map blankOut) 0 .forward = none := by
      rw [matchIndex_zero_eq_none_iff, splitGroup?_eq_none_iff] at hpartner ⊢
      rwa [← covered_skeleton, skeleton_map_blankOut, covered_skeleton]
    exact ⟨_, .opening hpartner', rfl⟩
  | @behindList s i hpartner hlast =>
    obtain ⟨inside, rest, hgroup, rfl⟩ := exists_splitGroup?_of_matchIndex_zero hpartner
    have hinside := balanced_map_blankOut_iff.mpr (balanced_of_splitGroup? hgroup)
    have hpartner' := matchIndex_zero_of_splitGroup?
      (splitGroup?_of_balanced hinside (rest.map blankOut))
    obtain rfl := of_splitGroup?_eq_some hgroup
    have htext : (inside ++ ')' :: rest).map blankOut =
        inside.map blankOut ++ ')' :: rest.map blankOut := List.map_append
    have hmisread := Misread.behindList hpartner' (by simpa using hlast)
    rw [← htext] at hmisread
    exact ⟨_, hmisread, rfl⟩
  | @behindAtom c s hc hrest =>
    have hatom : blankOut c = c := blankOut_of_not_isBlank (hfirst c rfl)
    obtain ⟨x, hx, hends⟩ := hrest
    refine ⟨_, .behindAtom (by rwa [hatom]) ⟨blankOut x, List.mem_map_of_mem hx, ?_⟩, rfl⟩
    rcases hends with rfl | rfl | rfl <;> decide
  | deep => exact absurd rfl hdeep

/-- A text that spells a tree of too many levels is too deeply nested still if not all that stands
so deep in it is white space. -/
lemma parse_map_blankOut_of_deep {text : List Char} {tree : Tree}
    (h : tree.Spells (normalize text)) (hdeep : tree.Deep maxDepth) :
    parse (text.map blankOut) = .error (.parse (.tooDeeplyNested maxDepth)) ↔
      Stands (fun c => Text.isBlank c = false ∧ c ≠ ')') maxDepth (normalize text) := by
  cases tree with
  | atom name => exact absurd (deep_atom_iff.mp hdeep) (by decide)
  | list items =>
    obtain ⟨inside, hnormal, hinside⟩ := h
    obtain ⟨items', hitems'⟩ :=
      exists_spellsItems_iff_balanced.mpr (balanced_map_blankOut_iff.mpr hinside.balanced)
    have hnormal' : normalize (text.map blankOut) = '(' :: (inside.map blankOut ++ [')']) := by
      rw [normalize_map_blankOut, hnormal, List.map_cons, List.map_append]
      rfl
    have hspells : (list items').Spells (normalize (text.map blankOut)) := by
      rw [hnormal']
      exact spells_list_iff.mpr hitems'
    have hproperty : (fun c => c ≠ ' ' ∧ c ≠ ')') ∘ blankOut =
        fun c => Text.isBlank c = false ∧ c ≠ ')' := funext fun c => propext (blankOut_ne_iff c)
    rw [parse_eq_tooDeeplyNested_iff hspells, not_within_iff_deep, ← hspells.stands_iff_deep,
      normalize_map_blankOut, stands_map_iff rise_blankOut, hproperty]

/-! ### Trees -/

/-- If a text is read as the same tree, all white space separates atoms. -/
lemma separates_of_parse_map_blankOut {text : List Char} {tree : Tree}
    (h : parse text = .ok tree) (hblank : parse (text.map blankOut) = .ok tree) :
    Separates text := by
  have hspells := (parse_eq_ok_iff_spells.mp h).1.spellsItems
  have hspells' := (parse_eq_ok_iff_spells.mp hblank).1.spellsItems
  rw [normalize_map_blankOut] at hspells'
  refine separates_iff.mpr fun c hc hwhite => ?_
  by_contra hne
  have hatom : isAtomChar c = true := isAtomChar_iff.mpr ⟨hne, ne_paren_of_isBlank hwhite⟩
  obtain ⟨t, ht, lists, name, hnode, hname⟩ := hspells.exists_isNode hc hatom
  obtain ⟨x, -, hx⟩ := List.mem_map.mp ((hspells'.of_isNode ht hnode).2 c hname).2
  rw [← hx, isBlank_blankOut] at hwhite
  exact hne (hx.symm.trans (blankOut_of_isBlank hwhite))

/-- Nothing but blanks spells no trees. -/
lemma spellsItems_nil_iff {text : List Char} : SpellsItems [] text ↔ ∀ c ∈ text, c = ' ' := by
  refine ⟨SpellsItems.eq_blank, fun h => ?_⟩
  induction text with
  | nil => exact .nil
  | cons c text ih =>
    obtain ⟨rfl, htext⟩ := List.forall_mem_cons.mp h
    exact .blank (ih htext)

/-- A pair of parentheses is the empty list exactly if all that it encloses separates atoms. -/
lemma parse_group_eq_nil_iff (s : List Char) :
    parse ('(' :: (s ++ [')'])) = .ok nil ↔ ∀ c ∈ s, c ∈ [' ', '\n', '\t', '\r'] := by
  have hnormal : normalize ('(' :: (s ++ [')'])) = '(' :: (s.map soften ++ [')']) := by
    rw [normalize_eq_map, Text.trim_eq_self]
    · rw [List.map_cons, List.map_append]
      rfl
    · rintro c ⟨⟩
      decide
    · intro c hc
      rw [← List.cons_append, List.getLast?_concat] at hc
      cases hc
      decide
  have hwithin : (list []).Within maxDepth := within_list_iff.mpr (by simp)
  rw [parse_eq_ok_iff_spells, hnormal, nil, spells_list_iff, spellsItems_nil_iff,
    and_iff_left hwithin]
  simp only [List.forall_mem_map, soften_eq_blank_iff]

/-! ### Texts that are read alike -/

/-- Two texts are read as the same tree, or the same fault is reported but for the text that it
quotes. -/
def ReadsAlike (s t : List Char) : Prop :=
  (parse s).mapError Fault.unquoted = (parse t).mapError Fault.unquoted

lemma Separates.readsAlike {text : List Char} (h : Separates text) :
    ReadsAlike (text.map blankOut) text := by
  rw [ReadsAlike, h.parse_map_blankOut]

/-- A text that is read as a tree is read alike only if all white space separates atoms. -/
lemma separates_of_readsAlike {text : List Char} {tree : Tree} (h : parse text = .ok tree)
    (halike : ReadsAlike (text.map blankOut) text) : Separates text := by
  rw [ReadsAlike, h] at halike
  cases hblank : parse (text.map blankOut) with
  | ok tree' =>
    rw [hblank] at halike
    obtain rfl := Except.ok.inj halike
    exact separates_of_parse_map_blankOut h hblank
  | error fault =>
    rw [hblank] at halike
    cases halike

/-- A text that is too deeply nested is read alike exactly if something else than white space
stands as deep. -/
lemma readsAlike_iff_stands {text : List Char}
    (h : parse text = .error (.parse (.tooDeeplyNested maxDepth))) :
    ReadsAlike (text.map blankOut) text ↔
      Stands (fun c => Text.isBlank c = false ∧ c ≠ ')') maxDepth (normalize text) := by
  obtain ⟨tree, hspells, hwithin⟩ := exists_spells_of_tooDeeplyNested h
  rw [← parse_map_blankOut_of_deep hspells (not_within_iff_deep.mp hwithin), ReadsAlike, h]
  cases hblank : parse (text.map blankOut) with
  | ok tree' =>
    constructor <;> intro hsame <;> cases hsame
  | error fault =>
    constructor
    · intro hsame
      rw [Fault.unquoted_eq_tooDeeplyNested_iff.mp (Except.error.inj hsame)]
    · intro hsame
      rw [Except.error.inj hsame]

/-- Any other fault of a text is reported alike. -/
lemma readsAlike_of_error {text : List Char} {fault : Fault} (h : parse text = .error fault)
    (hdeep : fault ≠ .parse (.tooDeeplyNested maxDepth)) :
    ReadsAlike (text.map blankOut) text := by
  obtain ⟨fault', hfault', hunquoted⟩ :=
    (misread_of_parse h).map_blankOut (fun c hc => Text.isBlank_of_mem_head?_trim hc) hdeep
  rw [← normalize_map_blankOut] at hfault'
  rw [ReadsAlike, h, hfault'.parse_eq_error]
  exact congrArg Except.error hunquoted

/-- If all white space separates atoms, it may as well be blanks. Otherwise a text that is read as
a tree is not read alike any more, but a fault is still reported alike, unless it is that of too
many levels and only white space stands as deep. A pair of parentheses is the empty list exactly if
all that it encloses separates atoms. -/
theorem readsAlike_map_blankOut_iff (text : List Char) :
    (Separates text → parse (text.map blankOut) = parse text) ∧
      (ReadsAlike (text.map blankOut) text ↔
        Separates text ∨ ∃ fault, parse text = .error fault ∧
          (fault = .parse (.tooDeeplyNested maxDepth) →
            Stands (fun c => Text.isBlank c = false ∧ c ≠ ')') maxDepth (normalize text))) ∧
      ∀ s, parse ('(' :: (s ++ [')'])) = .ok nil ↔ ∀ c ∈ s, c ∈ [' ', '\n', '\t', '\r'] := by
  refine ⟨Separates.parse_map_blankOut, ⟨fun halike => ?_, ?_⟩, parse_group_eq_nil_iff⟩
  · cases hparse : parse text with
    | ok tree => exact Or.inl (separates_of_readsAlike hparse halike)
    | error fault =>
      refine Or.inr ⟨fault, rfl, ?_⟩
      rintro rfl
      exact (readsAlike_iff_stands hparse).mp halike
  · rintro (hseparates | ⟨fault, hparse, hstands⟩)
    · exact hseparates.readsAlike
    · by_cases hdeep : fault = .parse (.tooDeeplyNested maxDepth)
      · subst hdeep
        exact (readsAlike_iff_stands hparse).mpr (hstands rfl)
      · exact readsAlike_of_error hparse hdeep

/-- Line ends and tabs may become blanks. A form feed may, too, where a fault is reported, but it
does not stand in an empty list. -/
theorem readsAlike_map_blankOut_iff_formFeed :
    parse ("(a\t(b)\n)".toList.map blankOut) = parse "(a\t(b)\n)".toList ∧
      ReadsAlike (['a', '\x0C', ' ', 'b'].map blankOut) ['a', '\x0C', ' ', 'b'] ∧
      parse ['(', '\x0C', ')'] ≠ .ok nil := by
  have hseparates : Separates "(a\t(b)\n)".toList := by
    have hall : (Text.trim "(a\t(b)\n)".toList).all
        (fun c => !Text.isBlank c || [' ', '\n', '\t', '\r'].contains c) = true := by decide
    intro c hc hblank
    have hmem := List.all_eq_true.mp hall c hc
    simpa [hblank] using hmem
  have htrailing : parse ['a', '\x0C', ' ', 'b'] = .error (.parse (.trailingContent "b")) := by
    decide +kernel
  obtain ⟨-, halike, hnil⟩ := readsAlike_map_blankOut_iff ['a', '\x0C', ' ', 'b']
  refine ⟨(readsAlike_map_blankOut_iff _).1 hseparates, halike.mpr (Or.inr ?_), ?_⟩
  · refine ⟨_, htrailing, fun h => ?_⟩
    cases h
  · intro h
    exact absurd ((hnil ['\x0C']).mp h '\x0C' (by simp)) (by decide)

/-- Between two parentheses a form feed is an atom, but a blank is not. -/
theorem not_readsAlike_formFeed :
    parse ['(', '\x0C', ')'] = .ok (list [atom ['\x0C']]) ∧
      parse (['(', '\x0C', ')'].map blankOut) = .ok nil ∧
      ¬ ReadsAlike (['(', '\x0C', ')'].map blankOut) ['(', '\x0C', ')'] := by
  have hfeed : parse ['(', '\x0C', ')'] = .ok (list [atom ['\x0C']]) := by decide +kernel
  have hblank : parse (['(', '\x0C', ')'].map blankOut) = .ok nil := by decide +kernel
  refine ⟨hfeed, hblank, fun halike => ?_⟩
  rw [ReadsAlike, hfeed, hblank] at halike
  exact absurd (Except.ok.inj halike) (by decide)

end Tree

end TapeTower
