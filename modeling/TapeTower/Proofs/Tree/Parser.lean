import TapeTower.Proofs.Result
import TapeTower.Proofs.Text.Blank
import TapeTower.Proofs.Tree.Tokens

/-!
# The parser accepts its grammar

The parser never looks at tokens: it divides a list at the partner of its opening
parenthesis, cuts what is inside into the texts of the items and reads each of these on
its own. On the way there are three facts, one for each reader.

* `SpellsItems.splitGroup?`: a text that spells trees is what is found in front of its
  closing parenthesis.
* `spellsItems_iff_items`: a text spells some trees exactly if it is cut into texts that
  spell one of them each.
* `parseFragment_eq_ok_iff`: a fragment is read as a tree exactly if it spells this tree,
  and there are enough levels for it.

Since the text is trimmed before, this makes the parser accept exactly the texts whose
tokens are the symbols of a tree that is not too deep.
-/

namespace TapeTower.Tree

/-- A group is the text up to a closing parenthesis. -/
lemma of_splitGroup?_eq_some {text inside rest : List Char}
    (h : splitGroup? text = some (inside, rest)) : text = inside ++ ')' :: rest := by
  unfold splitGroup? at h
  split at h
  · next hwalk =>
    cases h
    obtain ⟨inside, hpassed, rfl⟩ := leaveLevel_eq_some hwalk
    obtain ⟨rfl, rfl⟩ := List.cons.inj hpassed
    simp
  · cases h

/-- A balanced text is the group in front of a closing parenthesis. -/
lemma splitGroup?_of_balanced {inside : List Char} (h : Delimiters.paren.Balanced inside)
    (rest : List Char) : splitGroup? (inside ++ ')' :: rest) = some (inside, rest) := by
  have hwalk := leaveLevel_of_balanced (by decide) h [] rest
  simp only [Delimiters.paren] at hwalk
  simp [Tree.splitGroup?, hwalk]

/-- A text that spells trees is the group in front of a closing parenthesis. -/
lemma SpellsItems.splitGroup? {trees : List Tree} {inside : List Char}
    (h : SpellsItems trees inside) (rest : List Char) :
    splitGroup? (inside ++ ')' :: rest) = some (inside, rest) :=
  splitGroup?_of_balanced h.balanced rest

/-! ### Single trees -/

/-- The text of one tree, with no blanks around it. -/
def Spells : Tree → List Char → Prop
  | .atom name, text => text = name ∧ name ≠ [] ∧ ∀ c ∈ name, isAtomChar c = true
  | .list items, text => ∃ inside, text = '(' :: (inside ++ [')']) ∧ SpellsItems items inside

lemma spells_list_iff {items : List Tree} {inside : List Char} :
    Spells (.list items) ('(' :: (inside ++ [')'])) ↔ SpellsItems items inside := by
  constructor
  · rintro ⟨inside', htext, hinside⟩
    have hinner := (List.cons.inj htext).2
    rwa [List.append_cancel_right hinner]
  · intro h
    exact ⟨inside, rfl, h⟩

/-- No tree is spelled without a character. -/
lemma Spells.ne_nil {tree : Tree} {text : List Char} (h : tree.Spells text) : text ≠ [] := by
  cases tree with
  | atom name =>
    obtain ⟨rfl, hne, -⟩ := h
    exact hne
  | list items =>
    obtain ⟨inside, rfl, -⟩ := h
    exact List.cons_ne_nil _ _

/-- A text that starts with a parenthesis spells no atom. -/
lemma exists_list_of_spells {tree : Tree} {text : List Char} (h : tree.Spells ('(' :: text)) :
    ∃ items, tree = .list items := by
  cases tree with
  | atom name =>
    obtain ⟨rfl, -, hname⟩ := h
    exact absurd (hname '(' (by simp)) (by decide)
  | list items => exact ⟨items, rfl⟩

/-- A text that starts with another character spells no list. -/
lemma eq_atom_of_spells {tree : Tree} {text : List Char} (hopen : text.head? ≠ some '(')
    (h : tree.Spells text) : tree = .atom text ∧ text ≠ [] ∧ ∀ c ∈ text, isAtomChar c = true := by
  cases tree with
  | atom name =>
    obtain ⟨rfl, hne, hname⟩ := h
    exact ⟨rfl, hne, hname⟩
  | list items =>
    obtain ⟨inside, rfl, -⟩ := h
    exact absurd rfl hopen

/-! ### Cutting a text into items -/

/-- Blanks are passed. -/
lemma items_blank (text : List Char) (offset : Nat) :
    items ⟨' ' :: text, offset⟩ = items ⟨text, offset + 1⟩ := by
  have hoffset : offset + 1 + (text.takeWhile (· = ' ')).length =
      offset + ((' ' :: text).takeWhile (· = ' ')).length := by
    simp
    omega
  rw [items, items]
  simp only [hoffset]
  rfl

/-- Nothing is cut from blanks. -/
lemma items_eq_nil {part : Fragment} (h : part.text.dropWhile (· = ' ') = []) :
    items part = .ok [] := by
  rw [items]
  split <;> simp_all

/-- A list is cut off with its parentheses. -/
lemma items_group {text inside rest : List Char} (h : splitGroup? text = some (inside, rest))
    (offset : Nat) :
    ∃ offset', items ⟨'(' :: text, offset⟩ =
      (items ⟨rest, offset'⟩).map (⟨'(' :: inside ++ [')'], offset⟩ :: ·) := by
  rw [items]
  split
  · next hpart => simp at hpart
  · next text' hpart =>
    obtain rfl : text = text' := by simpa using hpart
    split
    · next inside' rest' hgroup =>
      rw [h] at hgroup
      cases hgroup
      exact ⟨_, rfl⟩
    · next hgroup =>
      rw [h] at hgroup
      cases hgroup
  · next c text' hopen hpart =>
    simp at hpart
    exact absurd hpart.1.symm hopen

/-- An atom is cut off up to its last character. -/
lemma items_atom {name text : List Char} (hne : name ≠ [])
    (hname : ∀ c ∈ name, isAtomChar c = true) (htext : EndsAtom text) (offset : Nat) :
    ∃ offset', items ⟨name ++ text, offset⟩ =
      (items ⟨text, offset'⟩).map (⟨name, offset⟩ :: ·) := by
  obtain ⟨c, name, rfl⟩ := List.exists_cons_of_ne_nil hne
  obtain ⟨hblank, hopen, -⟩ := isAtomChar_iff.mp (hname c (by simp))
  obtain ⟨htake, hdrop⟩ :=
    takeWhile_append_of_endsAtom (fun x hx => hname x (List.mem_cons_of_mem c hx)) htext
  rw [items]
  split
  · next hpart => simp [hblank] at hpart
  · next text' hpart =>
    simp [hblank] at hpart
    exact absurd hpart.1 hopen
  · next c' text' _ hpart =>
    obtain ⟨rfl, rfl⟩ : c = c' ∧ name ++ text = text' := by simpa [hblank] using hpart
    rw [if_pos (hname c (by simp))]
    simp only [htake, hdrop]
    refine ⟨offset + Text.byteLength (c :: name), ?_⟩
    simp [hblank]

/-- A text that spells trees is cut into texts that spell one of them each. -/
lemma SpellsItems.exists_items {trees : List Tree} {text : List Char} (h : SpellsItems trees text)
    (offset : Nat) : ∃ parts, items ⟨text, offset⟩ = .ok parts ∧
      List.Forall₂ (fun (item : Fragment) tree => tree.Spells item.text) parts trees := by
  induction h generalizing offset with
  | nil => exact ⟨[], items_eq_nil rfl, .nil⟩
  | blank _ ih =>
    rw [items_blank]
    exact ih (offset + 1)
  | @atom name _ _ hne hname hend _ ih =>
    obtain ⟨offset', hitems⟩ := items_atom hne hname hend offset
    obtain ⟨parts, hparts, hspell⟩ := ih offset'
    rw [hitems, hparts]
    exact ⟨⟨name, offset⟩ :: parts, rfl, .cons ⟨rfl, hne, hname⟩ hspell⟩
  | @list _ _ inside text hinside _ _ ih =>
    obtain ⟨offset', hitems⟩ := items_group (hinside.splitGroup? text) offset
    obtain ⟨parts, hparts, hspell⟩ := ih offset'
    rw [hitems, hparts]
    exact ⟨⟨'(' :: inside ++ [')'], offset⟩ :: parts, rfl, .cons ⟨inside, rfl, hinside⟩ hspell⟩

/-- Blanks in front do not matter. -/
lemma SpellsItems.of_dropWhile {trees : List Tree} {text : List Char}
    (h : SpellsItems trees (text.dropWhile (· = ' '))) : SpellsItems trees text := by
  induction text with
  | nil => exact h
  | cons c text ih =>
    by_cases hc : c = ' '
    · subst hc
      exact .blank (ih (by simpa using h))
    · simpa [hc] using h

/-- A text that is cut into texts of single trees spells these trees. -/
lemma spellsItems_of_items {part : Fragment} {parts : List Fragment} {trees : List Tree}
    (h : items part = .ok parts)
    (hspell : List.Forall₂ (fun (item : Fragment) tree => tree.Spells item.text) parts trees) :
    SpellsItems trees part.text := by
  fun_induction items part generalizing parts trees with
  | case1 part hpart =>
    cases h
    cases hspell
    refine .of_dropWhile ?_
    rw [hpart]
    exact .nil
  | case2 part offset text hpart inside rest hgroup _ =>
    rename_i item ih
    obtain ⟨parts, hparts, rfl⟩ := map_eq_ok_iff.mp h
    refine .of_dropWhile ?_
    rw [hpart, of_splitGroup?_eq_some hgroup]
    cases hspell with
    | cons hitem hspell =>
      obtain ⟨items, rfl⟩ := exists_list_of_spells hitem
      exact .list (spells_list_iff.mp hitem) (ih hparts hspell)
  | case3 => cases h
  | case4 part offset c text hopen hpart hc _ =>
    rename_i item ih
    obtain ⟨parts, hparts, rfl⟩ := map_eq_ok_iff.mp h
    refine .of_dropWhile ?_
    rw [hpart]
    cases hspell with
    | cons hitem hspell =>
      obtain ⟨rfl, hne, hname⟩ := eq_atom_of_spells (by simpa [item] using hopen) hitem
      have hrest := SpellsItems.atom hne hname (endsAtom_dropWhile text) (ih hparts hspell)
      simpa [item] using hrest
  | case5 => cases h

/-- A text spells some trees exactly if it is cut into texts that spell one of them each. -/
theorem spellsItems_iff_items {trees : List Tree} {text : List Char} (offset : Nat) :
    SpellsItems trees text ↔ ∃ parts, items ⟨text, offset⟩ = .ok parts ∧
      List.Forall₂ (fun (item : Fragment) tree => tree.Spells item.text) parts trees := by
  constructor
  · exact fun h => h.exists_items offset
  · rintro ⟨parts, hparts, hspell⟩
    exact spellsItems_of_items hparts hspell

/-! ### Reading a fragment -/

/-- `t.IsNode lists node` says that `node` is a node of `t` which so many lists of `t`
enclose. -/
inductive IsNode : Tree → (lists : Nat) → Tree → Prop
  | self (t : Tree) : IsNode t 0 t
  | item {items : List Tree} {s node : Tree} {lists : Nat} (hs : s ∈ items)
      (h : IsNode s lists node) : IsNode (.list items) (lists + 1) node

/-- A tree has so many levels at most. -/
def Within (levels : Nat) (t : Tree) : Prop := ∀ lists node, t.IsNode lists node → lists < levels

lemma not_within_zero (t : Tree) : ¬ t.Within 0 :=
  fun h => Nat.not_lt_zero 0 (h 0 t (.self t))

lemma within_atom (levels : Nat) (name : List Char) : (atom name).Within (levels + 1) := by
  intro lists node h
  cases h
  exact Nat.succ_pos levels

lemma within_list_iff {levels : Nat} {items : List Tree} :
    (list items).Within (levels + 1) ↔ ∀ t ∈ items, t.Within levels := by
  constructor
  · intro h t ht lists node hnode
    exact Nat.lt_of_succ_lt_succ (h (lists + 1) node (.item ht hnode))
  · intro h lists node hnode
    cases hnode with
    | self => exact Nat.succ_pos levels
    | item ht hnode => exact Nat.succ_lt_succ (h _ ht _ _ hnode)

lemma Within.mono {levels levels' : Nat} {t : Tree} (h : t.Within levels)
    (hlevels : levels ≤ levels') : t.Within levels' :=
  fun lists node hnode => Nat.lt_of_lt_of_le (h lists node hnode) hlevels

mutual

/-- A tree has finitely many levels. -/
theorem exists_within : ∀ t : Tree, ∃ levels, t.Within levels
  | .atom name => ⟨1, within_atom 0 name⟩
  | .list items => by
    obtain ⟨levels, hlevels⟩ := exists_forall_within items
    exact ⟨levels + 1, within_list_iff.mpr hlevels⟩

/-- The items of a list have finitely many levels. -/
theorem exists_forall_within : ∀ items : List Tree, ∃ levels, ∀ t ∈ items, t.Within levels
  | [] => ⟨0, by simp⟩
  | t :: items => by
    obtain ⟨m, hm⟩ := exists_within t
    obtain ⟨n, hn⟩ := exists_forall_within items
    refine ⟨max m n, List.forall_mem_cons.mpr ⟨hm.mono (Nat.le_max_left m n), ?_⟩⟩
    exact fun s hs => (hn s hs).mono (Nat.le_max_right m n)

end

/-- Fragments are read as trees if each is. -/
lemma forall₂_parseFragment_iff {levels : Nat} {parts : List Fragment} {trees : List Tree}
    (h : ∀ {part : Fragment} {tree : Tree},
      parseFragment levels part = .ok tree ↔ tree.Spells part.text ∧ tree.Within levels) :
    List.Forall₂ (fun part tree => parseFragment levels part = .ok tree) parts trees ↔
      List.Forall₂ (fun (item : Fragment) tree => tree.Spells item.text) parts trees ∧
        ∀ t ∈ trees, t.Within levels := by
  induction trees generalizing parts with
  | nil => simp
  | cons tree trees ih =>
    cases parts with
    | nil => simp
    | cons part parts =>
      rw [List.forall₂_cons, h, ih, List.forall₂_cons, List.forall_mem_cons]
      tauto

/-- A list is read if the text between its parentheses is. -/
lemma parseFragment_list_eq_ok_iff {levels : Nat} {text : List Char} {offset : Nat} {tree : Tree}
    (ih : ∀ {part : Fragment} {tree : Tree},
      parseFragment levels part = .ok tree ↔ tree.Spells part.text ∧ tree.Within levels) :
    parseFragment (levels + 1) ⟨'(' :: text, offset⟩ = .ok tree ↔
      tree.Spells ('(' :: text) ∧ tree.Within (levels + 1) := by
  rw [parseFragment]
  constructor
  · intro h
    split at h
    · next inside hgroup =>
      obtain ⟨parts, hparts, hread⟩ := bind_eq_ok_iff.mp h
      obtain ⟨trees, htrees, htree⟩ := bind_eq_ok_iff.mp hread
      cases htree
      obtain ⟨hspell, hwithin⟩ := (forall₂_parseFragment_iff ih).mp (mapM_eq_ok_iff.mp htrees)
      rw [of_splitGroup?_eq_some hgroup]
      exact ⟨spells_list_iff.mpr (spellsItems_of_items hparts hspell),
        within_list_iff.mpr hwithin⟩
    · cases h
    · cases h
  · rintro ⟨hspells, hwithin⟩
    obtain ⟨trees, rfl⟩ := exists_list_of_spells hspells
    obtain ⟨inside, htext, hinside⟩ := hspells
    obtain rfl := (List.cons.inj htext).2
    obtain ⟨parts, hparts, hspell⟩ := hinside.exists_items (offset + 1)
    have htrees := mapM_eq_ok_iff.mpr
      ((forall₂_parseFragment_iff ih).mpr ⟨hspell, within_list_iff.mp hwithin⟩)
    rw [hinside.splitGroup? []]
    exact bind_eq_ok_iff.mpr ⟨parts, hparts, bind_eq_ok_iff.mpr ⟨trees, htrees, rfl⟩⟩

/-- An atom is read if it is the whole text. -/
lemma parseFragment_atom_eq_ok_iff {levels : Nat} {text : List Char} {offset : Nat} {tree : Tree}
    (hopen : text.head? ≠ some '(') :
    parseFragment (levels + 1) ⟨text, offset⟩ = .ok tree ↔
      tree.Spells text ∧ tree.Within (levels + 1) := by
  have hnot : ∀ text', text = '(' :: text' → False := by
    rintro text' rfl
    exact hopen rfl
  rw [parseFragment.eq_3 _ _ _ hnot]
  constructor
  · intro h
    split at h
    · cases h
    · next hdrop hne =>
      cases h
      have htext := List.takeWhile_append_dropWhile (p := isAtomChar) (l := text)
      rw [hdrop, List.append_nil] at htext
      rw [htext] at hne ⊢
      refine ⟨⟨rfl, hne, fun c hc => ?_⟩, within_atom levels text⟩
      rw [← htext] at hc
      exact List.mem_takeWhile_imp hc
    · cases h
  · rintro ⟨hspells, -⟩
    obtain ⟨rfl, hne, hname⟩ := eq_atom_of_spells hopen hspells
    obtain ⟨htake, hdrop⟩ := takeWhile_append_of_endsAtom hname endsAtom_nil
    rw [List.append_nil] at htake hdrop
    rw [htake, hdrop]
    cases text with
    | nil => exact absurd rfl hne
    | cons c text => rfl

/-- A fragment is read as a tree exactly if it spells the tree, which has levels enough. -/
theorem parseFragment_eq_ok_iff {levels : Nat} {part : Fragment} {tree : Tree} :
    parseFragment levels part = .ok tree ↔ tree.Spells part.text ∧ tree.Within levels := by
  induction levels generalizing part tree with
  | zero =>
    constructor
    · intro h
      cases h
    · intro h
      exact absurd h.2 (not_within_zero tree)
  | succ levels ih =>
    obtain ⟨text, offset⟩ := part
    by_cases hopen : text.head? = some '('
    · obtain ⟨text, rfl⟩ := List.head?_eq_some_iff.mp hopen
      exact parseFragment_list_eq_ok_iff ih
    · exact parseFragment_atom_eq_ok_iff hopen

/-- A text spells one tree at most. -/
lemma Spells.unique {s t : Tree} {text : List Char} (hs : s.Spells text) (ht : t.Spells text) :
    s = t := by
  obtain ⟨m, hm⟩ := exists_within s
  obtain ⟨n, hn⟩ := exists_within t
  have hreads : parseFragment (max m n) ⟨text, 0⟩ = .ok s :=
    parseFragment_eq_ok_iff.mpr ⟨hs, hm.mono (Nat.le_max_left m n)⟩
  have hreadt : parseFragment (max m n) ⟨text, 0⟩ = .ok t :=
    parseFragment_eq_ok_iff.mpr ⟨ht, hn.mono (Nat.le_max_right m n)⟩
  exact Except.ok.inj (hreads.symm.trans hreadt)

/-! ### Reading a text -/

/-- A trimmed text does not start with a blank. -/
lemma head?_trim (text : List Char) : (Text.trim text).head? ≠ some ' ' := by
  intro h
  have hblank := Text.isBlank_of_mem_head?_trim h
  exact absurd hblank (by decide)

/-- A trimmed text does not end with a blank. -/
lemma getLast?_trim (text : List Char) : (Text.trim text).getLast? ≠ some ' ' := by
  intro h
  have hblank := Text.isBlank_of_mem_getLast?_trim h
  exact absurd hblank (by decide)

/-- The text of no trees is made of blanks. -/
lemma SpellsItems.eq_blank {text : List Char} (h : SpellsItems [] text) : ∀ c ∈ text, c = ' ' := by
  generalize htrees : ([] : List Tree) = trees at h
  induction h with
  | nil => simp
  | blank _ ih =>
    intro c hc
    rcases List.mem_cons.mp hc with rfl | hc
    · rfl
    · exact ih htrees c hc
  | atom => cases htrees
  | list => cases htrees

/-- If a text ends with no blank, nothing comes after its trees. -/
lemma SpellsItems.eq_nil {s text : List Char} (h : SpellsItems [] text)
    (hlast : (s ++ text).getLast? ≠ some ' ') : text = [] := by
  by_contra hne
  obtain ⟨text, c, rfl⟩ := List.eq_nil_or_concat text |>.resolve_left hne
  have hc := h.eq_blank c (by simp)
  subst hc
  simp at hlast

/-- Without blanks around it, the text of one tree has the tokens of the tree. -/
lemma spells_iff_tokens {tree : Tree} {text : List Char} (hfirst : text.head? ≠ some ' ')
    (hlast : text.getLast? ≠ some ' ') : tree.Spells text ↔ tokens text = tree.symbols := by
  have hsymbols : tree.symbols = symbolsItems [tree] [] := rfl
  rw [hsymbols, ← spellsItems_iff]
  constructor
  · intro h
    cases tree with
    | atom name =>
      obtain ⟨rfl, hne, hname⟩ := h
      simpa using SpellsItems.atom hne hname endsAtom_nil .nil
    | list items =>
      obtain ⟨inside, rfl, hinside⟩ := h
      exact .list hinside .nil
  · intro h
    cases h with
    | blank => exact absurd rfl hfirst
    | atom hne hname _ htext =>
      obtain rfl := htext.eq_nil hlast
      rw [List.append_nil]
      exact ⟨rfl, hne, hname⟩
    | @list _ _ inside text hinside htext =>
      obtain rfl := SpellsItems.eq_nil (s := '(' :: (inside ++ [')'])) htext (by simpa using hlast)
      exact ⟨inside, rfl, hinside⟩

/-- A normalized text spells a tree exactly if it has the tokens of the tree. -/
lemma spells_normalize_iff {text : List Char} {tree : Tree} :
    tree.Spells (normalize text) ↔ tokens (normalize text) = tree.symbols :=
  spells_iff_tokens (head?_trim _) (getLast?_trim _)

/-- A text is read as the tree that it spells once it is normalized, if the tree has not too
many levels. -/
lemma parse_eq_ok_iff_spells {text : List Char} {t : Tree} :
    parse text = .ok t ↔ t.Spells (normalize text) ∧ t.Within maxDepth := by
  unfold parse
  split
  · next hempty =>
    rw [hempty]
    constructor
    · intro h
      cases h
    · rintro ⟨h, -⟩
      exact absurd rfl h.ne_nil
  · exact parseFragment_eq_ok_iff

/-- A text is read as a tree exactly if its tokens, after line ends and tabs have become
blanks and the text has been trimmed, are the symbols of the tree, and no node of the tree
is enclosed by `maxDepth` lists or more. -/
theorem parse_eq_ok_iff (text : List Char) (tree : Tree) :
    parse text = .ok tree ↔
      tokens (normalize text) = tree.symbols ∧
        ∀ lists node, tree.IsNode lists node → lists < maxDepth := by
  unfold parse
  split
  · next hempty =>
    rw [hempty, tokens_nil]
    constructor
    · intro h
      cases h
    · rintro ⟨h, -⟩
      cases tree <;> cases h
  · rw [parseFragment_eq_ok_iff]
    exact and_congr_left' (spells_iff_tokens (head?_trim _) (getLast?_trim _))

end TapeTower.Tree
