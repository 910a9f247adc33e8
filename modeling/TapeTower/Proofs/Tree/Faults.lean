import TapeTower.Proofs.Tree.Render
import TapeTower.Proofs.Tree.Unmatched

/-!
# Why a text is no tree

Whether a text is read as a tree, and what is reported if it is not, shows at its top level
(`Misread`): the parser looks at the first character of the normalized text and, if that is a
parenthesis, at its partner. If nothing is wrong there, the text spells a tree
(`exists_misread_or_spells`), since whatever a pair of parentheses encloses is balanced and spells
trees (`exists_spellsItems_iff_balanced`). The tree may still have too many levels, and below the
top level this is the only fault (`eq_tooDeeplyNested_of_spells`).

`Reached` are the parts of a text that the parser comes to on its way down. All of them but the
text itself spell a tree (`Reached.exists_spells`).
-/

namespace TapeTower.Tree

open Delimiters

/-! ### The partner of the first parenthesis -/

/-- The first parenthesis has no partner exactly if nothing is cut off behind it. -/
lemma matchIndex_zero_eq_none_iff {text : List Char} :
    paren.matchIndex ('(' :: text) 0 .forward = none ↔ splitGroup? text = none := by
  rw [splitGroup?_eq_none_iff, matchIndex, Option.map_eq_none_iff]
  exact Option.map_eq_none_iff.trans leaveLevel_paren_eq_none_iff

/-- The first parenthesis has its partner just behind what it encloses. -/
lemma matchIndex_zero_of_splitGroup? {text inside rest : List Char}
    (h : splitGroup? text = some (inside, rest)) :
    paren.matchIndex ('(' :: text) 0 .forward = some (inside.length + 1) := by
  have hinside := balanced_of_splitGroup? h
  have hpartner := Place.afterPartner_forward (by decide) hinside [] rest
  rw [of_splitGroup?_eq_some h]
  have hplace : Place.atIndex ('(' :: (inside ++ ')' :: rest)) 0 =
      ⟨[], paren.opening :: (inside ++ paren.closing :: rest)⟩ := rfl
  rw [matchIndex, hplace, hpartner]
  simp

/-- If the first parenthesis has a partner, the text between them is cut off. -/
lemma exists_splitGroup?_of_matchIndex_zero {text : List Char} {i : Nat}
    (h : paren.matchIndex ('(' :: text) 0 .forward = some i) :
    ∃ inside rest, splitGroup? text = some (inside, rest) ∧ i = inside.length + 1 := by
  cases hgroup : splitGroup? text with
  | none =>
    rw [matchIndex_zero_eq_none_iff.mpr hgroup] at h
    cases h
  | some parts =>
    obtain ⟨inside, rest⟩ := parts
    rw [matchIndex_zero_of_splitGroup? hgroup] at h
    exact ⟨inside, rest, rfl, (Option.some.inj h).symm⟩

/-! ### Faults of the top level -/

/-- `Misread text fault` says that a normalized text is no tree, and why. -/
inductive Misread : List Char → Fault → Prop
  /-- There is nothing to read. -/
  | empty : Misread [] (.parse .empty)
  /-- Nothing has opened the first parenthesis. -/
  | closing (text : List Char) : Misread (')' :: text) (.unmatchedDelimiter ')' 0)
  /-- The first parenthesis is never closed. -/
  | opening {text : List Char} (h : paren.matchIndex ('(' :: text) 0 .forward = none) :
      Misread ('(' :: text) (.unmatchedDelimiter '(' 0)
  /-- Something stands behind the partner of the first parenthesis. -/
  | behindList {text : List Char} {i : Nat}
      (h : paren.matchIndex ('(' :: text) 0 .forward = some i)
      (hlast : i + 1 < ('(' :: text).length) :
      Misread ('(' :: text) (trailing (('(' :: text).drop (i + 1)))
  /-- Something stands behind an atom. -/
  | behindAtom {c : Char} {text : List Char} (hc : isAtomChar c = true)
      (h : ∃ x ∈ text, x = ' ' ∨ x = '(' ∨ x = ')') :
      Misread (c :: text) (trailing (text.dropWhile isAtomChar))
  /-- The text is that of a tree which has a node that too many lists enclose. -/
  | deep {text : List Char} {tree node : Tree} {lists : Nat} (h : tokens text = tree.symbols)
      (hnode : tree.IsNode lists node) (hlists : maxDepth ≤ lists) :
      Misread text (.parse (.tooDeeplyNested maxDepth))

lemma exists_mem_iff_dropWhile_ne_nil {text : List Char} :
    (∃ x ∈ text, x = ' ' ∨ x = '(' ∨ x = ')') ↔ text.dropWhile isAtomChar ≠ [] := by
  simp only [ne_eq, List.dropWhile_eq_nil_iff, not_forall, exists_prop, isAtomChar_iff]
  exact exists_congr fun x => and_congr_right fun _ => by tauto

/-- A text that does not start with a blank spells a tree, unless something is wrong at its top
level. -/
lemma exists_misread_or_spells {text : List Char} (hfirst : text.head? ≠ some ' ') :
    (∃ fault, Misread text fault) ∨ ∃ tree : Tree, tree.Spells text := by
  cases text with
  | nil => exact Or.inl ⟨_, .empty⟩
  | cons c text =>
    by_cases hopen : c = '('
    · subst hopen
      cases hgroup : splitGroup? text with
      | none => exact Or.inl ⟨_, .opening (matchIndex_zero_eq_none_iff.mpr hgroup)⟩
      | some parts =>
        obtain ⟨inside, rest⟩ := parts
        obtain rfl := of_splitGroup?_eq_some hgroup
        cases rest with
        | nil =>
          obtain ⟨items, hitems⟩ :=
            exists_spellsItems_iff_balanced.mpr (balanced_of_splitGroup? hgroup)
          exact Or.inr ⟨.list items, inside, rfl, hitems⟩
        | cons x rest =>
          exact Or.inl ⟨_, .behindList (matchIndex_zero_of_splitGroup? hgroup) (by simp)⟩
    · by_cases hclose : c = ')'
      · subst hclose
        exact Or.inl ⟨_, .closing text⟩
      · have hblank : c ≠ ' ' := by
          rintro rfl
          exact hfirst rfl
        have hc := isAtomChar_iff.mpr ⟨hblank, hopen, hclose⟩
        by_cases hrest : text.dropWhile isAtomChar = []
        · rw [List.dropWhile_eq_nil_iff] at hrest
          exact Or.inr ⟨.atom (c :: text), rfl, List.cons_ne_nil c text,
            List.forall_mem_cons.mpr ⟨hc, hrest⟩⟩
        · exact Or.inl ⟨_, .behindAtom hc (exists_mem_iff_dropWhile_ne_nil.mpr hrest)⟩

/-! ### Faults below the top level -/

/-- Between two parentheses nothing is wrong. -/
lemma exists_items_of_splitGroup? {text inside rest : List Char}
    (h : splitGroup? text = some (inside, rest)) (offset : Nat) :
    ∃ parts, items ⟨inside, offset⟩ = .ok parts ∧
      ∀ part ∈ parts, ∃ tree, Spells tree part.text := by
  obtain ⟨trees, htrees⟩ := exists_spellsItems_iff_balanced.mpr (balanced_of_splitGroup? h)
  obtain ⟨parts, hparts, hspells⟩ := htrees.exists_items offset
  refine ⟨parts, hparts, ?_⟩
  clear htrees hparts
  induction hspells with
  | nil => simp
  | cons htree _ ih => exact List.forall_mem_cons.mpr ⟨⟨_, htree⟩, ih⟩

/-- A fragment that spells a tree may have too many levels, but nothing else is wrong with it. -/
lemma eq_tooDeeplyNested_of_spells {levels : Nat} {part : Fragment} {tree : Tree} {fault : Fault}
    (h : tree.Spells part.text) (herror : parseFragment levels part = .error fault) :
    fault = .parse (.tooDeeplyNested maxDepth) := by
  induction levels generalizing part tree with
  | zero =>
    cases herror
    rfl
  | succ levels ih =>
    cases tree with
    | atom name =>
      have hok := parseFragment_eq_ok_iff.mpr ⟨h, within_atom levels name⟩
      rw [hok] at herror
      cases herror
    | list trees =>
      obtain ⟨text, offset⟩ := part
      obtain ⟨inside, rfl, hinside⟩ := h
      have hgroup := hinside.splitGroup? []
      obtain ⟨parts, hparts, hspells⟩ := exists_items_of_splitGroup? hgroup (offset + 1)
      rw [parseFragment, hgroup] at herror
      rcases bind_eq_error_iff.mp herror with hitems | ⟨parts', hitems, hread⟩
      · rw [hparts] at hitems
        cases hitems
      · obtain rfl := Except.ok.inj (hparts.symm.trans hitems)
        rcases bind_eq_error_iff.mp hread with hpart | ⟨_, -, hpure⟩
        · obtain ⟨part, hmem, hpart⟩ := exists_of_mapM_eq_error hpart
          obtain ⟨tree, htree⟩ := hspells part hmem
          exact ih htree hpart
        · cases hpure

/-! ### The faults of a text -/

lemma parse_of_normalize_cons {text s : List Char} {c : Char} (h : normalize text = c :: s) :
    parse text = parseFragment maxDepth ⟨c :: s, 0⟩ := by
  rw [parse, h]

/-- A text that spells a tree is too deeply nested exactly if the tree has too many levels. -/
lemma parse_eq_tooDeeplyNested_iff {text : List Char} {tree : Tree}
    (h : tree.Spells (normalize text)) :
    parse text = .error (.parse (.tooDeeplyNested maxDepth)) ↔ ¬ tree.Within maxDepth := by
  obtain ⟨c, s, hnormal⟩ := List.exists_cons_of_ne_nil h.ne_nil
  have hread := parse_of_normalize_cons hnormal
  constructor
  · intro herror hwithin
    rw [parse_eq_ok_iff_spells.mpr ⟨h, hwithin⟩] at herror
    cases herror
  · intro hdeep
    cases hparse : parse text with
    | ok tree' =>
      obtain ⟨htree, hwithin⟩ := parse_eq_ok_iff_spells.mp hparse
      obtain rfl := h.unique htree
      exact absurd hwithin hdeep
    | error fault =>
      rw [hnormal] at h
      rw [hread] at hparse
      rw [eq_tooDeeplyNested_of_spells h hparse]

/-- What is wrong with the normalized text is reported. -/
lemma Misread.parse_eq_error {text : List Char} {fault : Fault}
    (h : Misread (normalize text) fault) : parse text = .error fault := by
  generalize hnormal : normalize text = n at h
  cases h with
  | empty => rw [parse, hnormal]
  | closing s =>
    rw [parse_of_normalize_cons hnormal]
    rfl
  | @opening s hpartner =>
    rw [parse_of_normalize_cons hnormal, maxDepth, parseFragment,
      matchIndex_zero_eq_none_iff.mp hpartner]
  | @behindList s i hpartner hlast =>
    rw [parse_of_normalize_cons hnormal, maxDepth, parseFragment]
    obtain ⟨inside, rest, hgroup, rfl⟩ := exists_splitGroup?_of_matchIndex_zero hpartner
    rw [hgroup]
    obtain rfl := of_splitGroup?_eq_some hgroup
    cases rest with
    | nil => simp at hlast
    | cons c rest => simp
  | @behindAtom c s hc hrest =>
    have hopen : ∀ s', c :: s = '(' :: s' → False := by
      rintro s' ⟨⟩
      exact absurd hc (by decide)
    obtain ⟨x, rest, hdrop⟩ :=
      List.exists_cons_of_ne_nil (exists_mem_iff_dropWhile_ne_nil.mp hrest)
    rw [parse_of_normalize_cons hnormal, maxDepth, parseFragment.eq_3 _ _ _ hopen,
      List.takeWhile_cons_of_pos hc, List.dropWhile_cons_of_pos hc, hdrop]
  | deep htokens hnode hlists =>
    have hspells := spells_normalize_iff.mpr (hnormal ▸ htokens)
    refine (parse_eq_tooDeeplyNested_iff hspells).mpr fun hwithin => ?_
    exact Nat.not_lt.mpr hlists (hwithin _ _ hnode)

/-- If a text is not read as a tree, something is wrong with the normalized text. -/
lemma exists_misread_of_parse {text : List Char} {fault : Fault} (h : parse text = .error fault) :
    ∃ fault', Misread (normalize text) fault' := by
  rcases exists_misread_or_spells (head?_trim _) with hmisread | ⟨tree, htree⟩
  · exact hmisread
  · have hdeep : ¬ tree.Within maxDepth := by
      intro hwithin
      rw [parse_eq_ok_iff_spells.mpr ⟨htree, hwithin⟩] at h
      cases h
    simp only [Within, not_forall, Nat.not_lt] at hdeep
    obtain ⟨lists, node, hnode, hlists⟩ := hdeep
    exact ⟨_, .deep (spells_normalize_iff.mp htree) hnode hlists⟩

/-- What is reported is wrong with the normalized text. -/
lemma misread_of_parse {text : List Char} {fault : Fault} (h : parse text = .error fault) :
    Misread (normalize text) fault := by
  obtain ⟨fault', hmisread⟩ := exists_misread_of_parse h
  have hreport := hmisread.parse_eq_error
  rw [h] at hreport
  cases hreport
  exact hmisread

/-- A text that is too deeply nested spells a tree. -/
lemma exists_spells_of_tooDeeplyNested {text : List Char}
    (h : parse text = .error (.parse (.tooDeeplyNested maxDepth))) :
    ∃ tree : Tree, tree.Spells (normalize text) ∧ ¬ tree.Within maxDepth := by
  have hmisread := misread_of_parse h
  generalize hnormal : normalize text = n at hmisread
  cases hmisread with
  | @deep _ tree node lists htokens hnode hlists =>
    subst hnormal
    refine ⟨tree, spells_normalize_iff.mpr htokens, fun hwithin => ?_⟩
    exact Nat.not_lt.mpr hlists (hwithin lists node hnode)

/-- If the parser reports another delimiter than a closing parenthesis, then the balance check
reports an opening one. -/
theorem exists_firstUnmatched_of_parse {text : List Char} {position : Nat} {delimiter : Char}
    (hclose : delimiter ≠ ')') (h : parse text = .error (.unmatchedDelimiter delimiter position)) :
    ∃ i, paren.firstUnmatched text = some (.opening, i) := by
  rw [← exists_firstUnmatched_opening_iff_of_skeleton_eq (skeleton_normalize text)]
  have hmisread := misread_of_parse h
  generalize normalize text = n at hmisread ⊢
  cases hmisread with
  | closing => exact absurd rfl hclose
  | opening hpartner =>
    exact exists_firstUnmatched_of_splitGroup? (matchIndex_zero_eq_none_iff.mp hpartner)

/-! ### The parts that the parser comes to -/

/-- `Reached text lists part` says that reading `text` may come to `part` inside of so many
lists. -/
inductive Reached (text : List Char) : (lists : Nat) → Fragment → Prop
  | whole : Reached text 0 ⟨normalize text, 0⟩
  | item {lists offset : Nat} {s inside : List Char} {parts : List Fragment} {part : Fragment}
      (h : Reached text lists ⟨'(' :: s, offset⟩) (hlists : lists < maxDepth)
      (hgroup : splitGroup? s = some (inside, []))
      (hparts : items ⟨inside, offset + 1⟩ = .ok parts) (hpart : part ∈ parts) :
      Reached text (lists + 1) part

/-- Inside of a list, every part that the parser comes to spells a tree. -/
lemma Reached.exists_spells {text : List Char} {lists : Nat} {part : Fragment}
    (h : Reached text (lists + 1) part) : ∃ tree, Spells tree part.text := by
  cases h with
  | item _ _ hgroup hparts hpart =>
    obtain ⟨parts, hitems, hspells⟩ := exists_items_of_splitGroup? hgroup _
    obtain rfl := Except.ok.inj (hparts.symm.trans hitems)
    exact hspells part hpart

/-- Something is wrong at the top level of a normalized text, or the text is that of a tree with
too many levels: this is what reading it reports, and it reports nothing else. Below the top level
every list is cut into its items, and each item is read as a tree or is too deeply nested. -/
theorem parse_eq_error_iff_misread (text : List Char) :
    (∀ fault, parse text = .error fault ↔ Misread (normalize text) fault) ∧
      ∀ lists part, Reached text lists part →
        (∀ s inside, part.text = '(' :: s → splitGroup? s = some (inside, []) →
          ∃ parts, items ⟨inside, part.offset + 1⟩ = .ok parts) ∧
        (lists ≠ 0 →
          (∃ tree, parseFragment (maxDepth - lists) part = .ok tree) ∨
            parseFragment (maxDepth - lists) part =
              .error (.parse (.tooDeeplyNested maxDepth))) := by
  refine ⟨fun fault => ⟨misread_of_parse, Misread.parse_eq_error⟩,
    fun lists part hpart => ⟨?_, ?_⟩⟩
  · intro s inside _ hgroup
    obtain ⟨parts, hparts, -⟩ := exists_items_of_splitGroup? hgroup (part.offset + 1)
    exact ⟨parts, hparts⟩
  · intro hlists
    obtain ⟨lists, rfl⟩ := Nat.exists_eq_succ_of_ne_zero hlists
    obtain ⟨tree, htree⟩ := hpart.exists_spells
    cases hread : parseFragment (maxDepth - lists.succ) part with
    | ok tree => exact Or.inl ⟨tree, rfl⟩
    | error fault => exact Or.inr (by rw [eq_tooDeeplyNested_of_spells htree hread])

/-- A letter behind a list is reported, and so is a list that is never closed. The item `(b)` of a
list is reached below the top level. -/
theorem parse_eq_error_iff_misread_behind :
    parse "(a (b)) c".toList = .error (trailing [' ', 'c']) ∧
      parse " (a (b)".toList = .error (.unmatchedDelimiter '(' 0) ∧
      Reached "((b))".toList 1 ⟨['(', 'b', ')'], 1⟩ ∧
      (∃ parts, items ⟨['b'], 2⟩ = .ok parts) ∧
      ((∃ tree, parseFragment (maxDepth - 1) ⟨['(', 'b', ')'], 1⟩ = .ok tree) ∨
        parseFragment (maxDepth - 1) ⟨['(', 'b', ')'], 1⟩ =
          .error (.parse (.tooDeeplyNested maxDepth))) := by
  have hbehind : normalize "(a (b)) c".toList = "(a (b)) c".toList := by decide
  have hopen : normalize " (a (b)".toList = "(a (b)".toList := by decide
  have hitem : Reached "((b))".toList 1 ⟨['(', 'b', ')'], 1⟩ := by
    have hwhole : Reached "((b))".toList 0 ⟨"((b))".toList, 0⟩ := .whole
    have hgroup : splitGroup? "(b))".toList = some ("(b)".toList, []) := by decide
    have hinner : splitGroup? ['b', ')'] = some (['b'], []) := by decide
    obtain ⟨offset, hparts⟩ := items_group hinner 1
    have hnone : items ⟨[], offset⟩ = .ok [] := items_eq_nil rfl
    rw [hnone] at hparts
    exact hwhole.item (by decide) hgroup hparts (List.mem_singleton_self _)
  obtain ⟨hlist, hread⟩ := (parse_eq_error_iff_misread "((b))".toList).2 1 _ hitem
  refine ⟨?_, ?_, hitem, hlist ['b', ')'] ['b'] rfl (by decide), hread (by decide)⟩
  · refine ((parse_eq_error_iff_misread _).1 _).mpr ?_
    rw [hbehind]
    exact .behindList (i := 6) (by decide) (by decide)
  · refine ((parse_eq_error_iff_misread _).1 _).mpr ?_
    rw [hopen]
    exact .opening (by decide)

end TapeTower.Tree
