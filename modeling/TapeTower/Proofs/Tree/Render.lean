import TapeTower.Proofs.Tree.Parser

/-!
# Trees are read back from what they are written as

A tree can be written whatever the texts of its atoms are, but only some trees can be read
back. `Legible` says which: the atoms have to be words, the tree must not be too deep, and
an atom on its own must not be trimmed. What is read from any text at all is legible
(`legible_of_parse`), and a legible tree is spelled by the text that it is written as
(`spells_render`), which reading does not change first (`normalize_render`).
-/

namespace TapeTower.Tree

/-! ### Legible trees -/

/-- A text that an atom can be read from: it is not empty, and none of its characters is a
blank, a line end, a tab or a parenthesis. -/
def IsWord (name : List Char) : Prop :=
  name ≠ [] ∧ ∀ c ∈ name, c ∉ [' ', '\n', '\t', '\r', '(', ')']

/-- All atoms of a tree are words. -/
def OfWords (t : Tree) : Prop := ∀ lists name, t.IsNode lists (.atom name) → IsWord name

/-- A tree that can be read back from what it is written as. -/
structure Legible (t : Tree) : Prop where
  /-- Every atom of the tree is a word. -/
  ofWords : t.OfWords
  /-- No node is enclosed by too many lists. -/
  within : ∀ lists node, t.IsNode lists node → lists < maxDepth
  /-- If the tree is an atom, there is no white space at the ends of its text. -/
  trimmed : ∀ name, t = .atom name →
    (∀ c ∈ name.head?, Text.isBlank c = false) ∧ ∀ c ∈ name.getLast?, Text.isBlank c = false

lemma ofWords_atom_iff {name : List Char} : (atom name).OfWords ↔ IsWord name := by
  constructor
  · intro h
    exact h 0 name (.self _)
  · intro h lists name' hnode
    cases hnode
    exact h

lemma ofWords_list_iff {items : List Tree} :
    (list items).OfWords ↔ ∀ t ∈ items, t.OfWords := by
  constructor
  · intro h t ht lists name hnode
    exact h (lists + 1) name (.item ht hnode)
  · intro h lists name hnode
    cases hnode with
    | item ht hnode => exact h _ ht _ _ hnode

lemma IsWord.isAtomChar {name : List Char} (h : IsWord name) :
    ∀ c ∈ name, isAtomChar c = true := by
  intro c hc
  have hword := h.2 c hc
  simp only [List.mem_cons, not_or] at hword
  obtain ⟨hblank, -, -, -, hopen, hclose, -⟩ := hword
  exact isAtomChar_iff.mpr ⟨hblank, hopen, hclose⟩

/-! ### The texts of trees -/

mutual

/-- What a tree is written in front of comes after its text. -/
theorem renderOnto_append : ∀ (t : Tree) (text rest : List Char),
    t.renderOnto (text ++ rest) = t.renderOnto text ++ rest
  | .atom name, text, rest => by
    rw [renderOnto, renderOnto, List.append_assoc]
  | .list [], text, rest => by
    rw [renderOnto, renderOnto]
    rfl
  | .list (t :: items), text, rest => by
    rw [renderOnto, renderOnto, List.cons_append, ← renderOnto_append t,
      ← renderItems_append items, List.cons_append]

/-- What items are written in front of comes after their texts. -/
theorem renderItems_append : ∀ (items : List Tree) (text rest : List Char),
    renderItems items (text ++ rest) = renderItems items text ++ rest
  | [], text, rest => by
    rw [renderItems, renderItems]
  | t :: items, text, rest => by
    rw [renderItems, renderItems, List.cons_append, ← renderOnto_append t,
      ← renderItems_append items]

end

lemma renderOnto_eq (t : Tree) (rest : List Char) : t.renderOnto rest = t.render ++ rest :=
  t.renderOnto_append [] rest

lemma renderItems_cons (t : Tree) (items : List Tree) :
    renderItems (t :: items) [] = ' ' :: (t.render ++ renderItems items []) := by
  rw [renderItems, renderOnto_eq]

lemma render_list_nil : (list []).render = ['(', ')'] := by
  rw [render, renderOnto]

lemma render_list_cons (t : Tree) (items : List Tree) :
    (list (t :: items)).render = '(' :: (t.render ++ renderItems items [] ++ [')']) := by
  have hitems : renderItems items [')'] = renderItems items [] ++ [')'] :=
    renderItems_append items [] [')']
  rw [render, renderOnto, renderOnto_eq, hitems, List.append_assoc]

/-- Behind the text of an item there is the end of the list or a blank. -/
lemma endsAtom_renderItems (items : List Tree) : EndsAtom (renderItems items []) := by
  cases items with
  | nil =>
    rw [renderItems]
    exact endsAtom_nil
  | cons t items =>
    rw [renderItems_cons]
    simp [EndsAtom, isAtomChar]

/-! ### Written trees -/

/-- The text of one tree in front of the texts of others. -/
lemma Spells.append {t : Tree} {trees : List Tree} {s text : List Char} (hs : t.Spells s)
    (htext : SpellsItems trees text) (hend : EndsAtom text) :
    SpellsItems (t :: trees) (s ++ text) := by
  cases t with
  | atom name =>
    obtain ⟨rfl, hne, hname⟩ := hs
    exact .atom hne hname hend htext
  | list items =>
    obtain ⟨inside, rfl, hinside⟩ := hs
    simpa using SpellsItems.list hinside htext

mutual

/-- If its atoms are words, a tree is spelled by the text that it is written as. -/
theorem spells_render : ∀ t : Tree, t.OfWords → t.Spells t.render
  | .atom name, h => by
    have hword := ofWords_atom_iff.mp h
    rw [render, renderOnto, List.append_nil]
    exact ⟨rfl, hword.1, hword.isAtomChar⟩
  | .list [], _ => by
    rw [render_list_nil]
    exact ⟨[], rfl, .nil⟩
  | .list (t :: items), h => by
    have hwords := ofWords_list_iff.mp h
    have ht := spells_render t (hwords t (by simp))
    have hitems := spellsItems_render items fun s hs => hwords s (by simp [hs])
    rw [render_list_cons]
    exact ⟨_, rfl, ht.append hitems (endsAtom_renderItems items)⟩

/-- If their atoms are words, items are spelled by the texts that they are written as. -/
theorem spellsItems_render : ∀ items : List Tree, (∀ t ∈ items, t.OfWords) →
    SpellsItems items (renderItems items [])
  | [], _ => by
    rw [renderItems]
    exact .nil
  | t :: items, h => by
    have ht := spells_render t (h t (by simp))
    have hitems := spellsItems_render items fun s hs => h s (by simp [hs])
    rw [renderItems_cons]
    exact .blank (ht.append hitems (endsAtom_renderItems items))

end

/-! ### Atoms in a text -/

/-- The atoms of the trees that a text spells are not empty, and their characters are
characters of the text that an atom can have. -/
lemma SpellsItems.of_isNode {trees : List Tree} {text : List Char} (h : SpellsItems trees text)
    {t : Tree} (ht : t ∈ trees) {lists : Nat} {name : List Char}
    (hnode : t.IsNode lists (.atom name)) :
    name ≠ [] ∧ ∀ c ∈ name, isAtomChar c = true ∧ c ∈ text := by
  induction h generalizing t lists with
  | nil => cases ht
  | blank _ ih =>
    obtain ⟨hne, hname⟩ := ih ht hnode
    exact ⟨hne, fun c hc => ⟨(hname c hc).1, List.mem_cons_of_mem _ (hname c hc).2⟩⟩
  | atom hne hname _ _ ih =>
    rcases List.mem_cons.mp ht with rfl | ht
    · cases hnode
      exact ⟨hne, fun c hc => ⟨hname c hc, List.mem_append_left _ hc⟩⟩
    · obtain ⟨hne', hname'⟩ := ih ht hnode
      exact ⟨hne', fun c hc => ⟨(hname' c hc).1, List.mem_append_right _ (hname' c hc).2⟩⟩
  | list _ _ ihinside ihtext =>
    rcases List.mem_cons.mp ht with rfl | ht
    · cases hnode with
      | item hs hnode =>
        obtain ⟨hne, hname⟩ := ihinside hs hnode
        refine ⟨hne, fun c hc => ⟨(hname c hc).1, ?_⟩⟩
        simp [(hname c hc).2]
    · obtain ⟨hne, hname⟩ := ihtext ht hnode
      refine ⟨hne, fun c hc => ⟨(hname c hc).1, ?_⟩⟩
      simp [(hname c hc).2]

/-- Every character of a text that spells trees belongs to an atom of one of them, or it is
a blank or a parenthesis. -/
lemma SpellsItems.exists_isNode {trees : List Tree} {text : List Char}
    (h : SpellsItems trees text) {c : Char} (hc : c ∈ text) (hatom : isAtomChar c = true) :
    ∃ t ∈ trees, ∃ lists name, t.IsNode lists (.atom name) ∧ c ∈ name := by
  obtain ⟨hblank, hopen, hclose⟩ := isAtomChar_iff.mp hatom
  induction h with
  | nil => cases hc
  | blank _ ih => exact ih ((List.mem_cons.mp hc).resolve_left hblank)
  | @atom name _ _ _ _ _ _ ih =>
    rcases List.mem_append.mp hc with hc | hc
    · exact ⟨_, List.mem_cons_self, 0, name, .self _, hc⟩
    · obtain ⟨t, ht, hnode⟩ := ih hc
      exact ⟨t, List.mem_cons_of_mem _ ht, hnode⟩
  | list _ _ ihinside ihtext =>
    have hc := (List.mem_cons.mp hc).resolve_left hopen
    rcases List.mem_append.mp hc with hc | hc
    · obtain ⟨t, ht, lists, name, hnode, hname⟩ := ihinside hc
      exact ⟨_, List.mem_cons_self, lists + 1, name, .item ht hnode, hname⟩
    · obtain ⟨t, ht, hnode⟩ := ihtext ((List.mem_cons.mp hc).resolve_left hclose)
      exact ⟨t, List.mem_cons_of_mem _ ht, hnode⟩

/-- A text that spells a tree is the text of its items and nothing else. -/
lemma Spells.spellsItems {t : Tree} {text : List Char} (h : t.Spells text) :
    SpellsItems [t] text := by
  have hitems := h.append .nil endsAtom_nil
  rwa [List.append_nil] at hitems

/-! ### Reading back -/

/-- No line end and no tab is left in a normalized text. -/
lemma not_mem_normalize {text : List Char} {c : Char} (hc : c ∈ normalize text) :
    c ≠ '\n' ∧ c ≠ '\t' ∧ c ≠ '\r' := by
  obtain ⟨x, -, rfl⟩ := List.mem_map.mp ((Text.trim_infix _).subset hc)
  split
  · decide
  · next h =>
    rw [not_or, not_or] at h
    exact h

/-- A text without line ends, tabs and white space at its ends is normal already. -/
lemma normalize_eq_self {text : List Char}
    (hmem : ∀ c ∈ text, c ≠ '\n' ∧ c ≠ '\t' ∧ c ≠ '\r')
    (hfirst : ∀ c ∈ text.head?, Text.isBlank c = false)
    (hlast : ∀ c ∈ text.getLast?, Text.isBlank c = false) : normalize text = text := by
  have hmap : text.map (fun c => if c = '\n' ∨ c = '\t' ∨ c = '\r' then ' ' else c) = text := by
    conv_rhs => rw [← List.map_id text]
    refine List.map_congr_left fun c hc => ?_
    obtain ⟨hline, htab, hreturn⟩ := hmem c hc
    simp [hline, htab, hreturn]
  rw [normalize, hmap, Text.trim_eq_self hfirst hlast]

/-- Every tree that is read from some text is legible. -/
theorem legible_of_parse {text : List Char} {t : Tree} (h : parse text = .ok t) : t.Legible := by
  obtain ⟨hspells, hwithin⟩ := parse_eq_ok_iff_spells.mp h
  refine ⟨?_, hwithin, ?_⟩
  · intro lists name hnode
    obtain ⟨hne, hname⟩ := hspells.spellsItems.of_isNode (List.mem_singleton_self t) hnode
    refine ⟨hne, fun c hc => ?_⟩
    obtain ⟨hatom, htext⟩ := hname c hc
    obtain ⟨hblank, hopen, hclose⟩ := isAtomChar_iff.mp hatom
    obtain ⟨hline, htab, hreturn⟩ := not_mem_normalize htext
    simp [hblank, hopen, hclose, hline, htab, hreturn]
  · rintro name rfl
    obtain ⟨rfl, -⟩ := hspells
    exact ⟨fun c hc => Text.isBlank_of_mem_head?_trim hc,
      fun c hc => Text.isBlank_of_mem_getLast?_trim hc⟩

/-- The text of a legible tree is normal. -/
lemma normalize_render {t : Tree} (h : t.Legible) : normalize t.render = t.render := by
  have hspells := spells_render t h.ofWords
  refine normalize_eq_self ?_ ?_ ?_
  · intro c hc
    by_cases hatom : isAtomChar c = true
    · obtain ⟨s, hs, lists, name, hnode, hname⟩ := hspells.spellsItems.exists_isNode hc hatom
      obtain rfl := List.mem_singleton.mp hs
      have hword := (h.ofWords lists name hnode).2 c hname
      simp only [List.mem_cons, not_or] at hword
      exact ⟨hword.2.1, hword.2.2.1, hword.2.2.2.1⟩
    · refine ⟨?_, ?_, ?_⟩ <;> rintro rfl <;> exact hatom (by decide)
  · cases t with
    | atom name =>
      obtain ⟨htext, -⟩ := hspells
      rw [htext]
      exact (h.trimmed name rfl).1
    | list items =>
      obtain ⟨inside, htext, -⟩ := hspells
      rw [htext]
      rintro c ⟨⟩
      decide
  · cases t with
    | atom name =>
      obtain ⟨htext, -⟩ := hspells
      rw [htext]
      exact (h.trimmed name rfl).2
    | list items =>
      obtain ⟨inside, htext, -⟩ := hspells
      rw [htext, ← List.cons_append, List.getLast?_concat]
      rintro c ⟨⟩
      decide

/-- A legible tree is read back. -/
lemma parse_render_of_legible {t : Tree} (h : t.Legible) : parse t.render = .ok t := by
  rw [parse_eq_ok_iff_spells, normalize_render h]
  exact ⟨spells_render t h.ofWords, h.within⟩

/-- A tree is read back from what it is written as exactly if it is legible. What is read
from any text is legible, and so it is read again from what it is written as. -/
theorem parse_render_eq_ok_iff :
    (∀ t : Tree, parse t.render = .ok t ↔ t.Legible) ∧
      ∀ (text : List Char) (t : Tree), parse text = .ok t →
        t.Legible ∧ parse t.render = .ok t := by
  constructor
  · intro t
    exact ⟨legible_of_parse, parse_render_of_legible⟩
  · intro text t h
    exact ⟨legible_of_parse h, parse_render_of_legible (legible_of_parse h)⟩

/-- A tab and a second blank are not written again, but the tree is the same. An atom with a
blank in it is not read back. -/
theorem parse_render_eq_ok_iff_nested :
    let t := list [.atom ['a'], .list [.atom ['b'], .atom ['c']]]
    parse "(a\t(b  c)) ".toList = .ok t ∧ t.render = "(a (b c))".toList ∧ t.Legible ∧
      parse t.render = .ok t ∧
      parse (atom ['b', ' ', 'c']).render ≠ .ok (atom ['b', ' ', 'c']) := by
  intro t
  obtain ⟨hiff, hparse⟩ := parse_render_eq_ok_iff
  have hread : parse "(a\t(b  c)) ".toList = .ok t := by decide +kernel
  obtain ⟨hlegible, hagain⟩ := hparse _ t hread
  refine ⟨hread, rfl, hlegible, hagain, ?_⟩
  intro hatom
  have hword := ((hiff _).mp hatom).ofWords 0 _ (.self _)
  exact absurd (hword.2 ' ' (by simp)) (by simp)

end TapeTower.Tree
