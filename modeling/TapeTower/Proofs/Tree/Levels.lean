import TapeTower.Proofs.Tree.Render
import TapeTower.Proofs.Tree.Unmatched

/-!
# Levels of a tree in its text

The lists that enclose a node of a tree are the parentheses that are open in front of it in the
text of the tree. So a text shows how many levels its tree has: some node is enclosed by `level`
lists exactly if some character that is neither a blank nor a closing parenthesis stands behind
`level` open parentheses (`SpellsItems.stands_iff_deep`).
-/

namespace TapeTower.Tree

open Delimiters

/-! ### Nodes -/

/-- Some node of the tree is enclosed by `level` lists or more. -/
def Deep (level : Int) (t : Tree) : Prop := ∃ lists node, t.IsNode lists node ∧ level ≤ lists

lemma not_within_iff_deep {levels : Nat} {t : Tree} : ¬ t.Within levels ↔ t.Deep levels := by
  simp [Within, Deep]

lemma deep_atom_iff {level : Int} {name : List Char} : (atom name).Deep level ↔ level ≤ 0 := by
  constructor
  · rintro ⟨lists, node, hnode, hlevel⟩
    cases hnode
    exact hlevel
  · exact fun h => ⟨0, _, .self _, h⟩

lemma deep_list_iff {level : Int} {items : List Tree} :
    (list items).Deep level ↔ level ≤ 0 ∨ ∃ t ∈ items, t.Deep (level - 1) := by
  constructor
  · rintro ⟨lists, node, hnode, hlevel⟩
    cases hnode with
    | self => exact Or.inl hlevel
    | @item _ s _ lists hs hnode => exact Or.inr ⟨s, hs, lists, node, hnode, by omega⟩
  · rintro (hlevel | ⟨s, hs, lists, node, hnode, hlevel⟩)
    · exact ⟨0, _, .self _, hlevel⟩
    · exact ⟨lists + 1, node, .item hs hnode, by omega⟩

/-! ### Characters -/

/-- A character with the property `p` stands in the text behind `level` open parentheses or
more. -/
def Stands (p : Char → Prop) (level : Int) (text : List Char) : Prop :=
  ∃ s c t, text = s ++ c :: t ∧ p c ∧ level ≤ paren.netDepth s

variable {p : Char → Prop} {level : Int}

lemma not_stands_nil : ¬ Stands p level [] := by
  rintro ⟨s, c, t, htext, -⟩
  simp at htext

lemma stands_cons_iff {c : Char} {text : List Char} :
    Stands p level (c :: text) ↔ p c ∧ level ≤ 0 ∨ Stands p (level - paren.rise c) text := by
  constructor
  · rintro ⟨s, x, t, htext, hx, hlevel⟩
    cases s with
    | nil =>
      cases htext
      exact Or.inl ⟨hx, hlevel⟩
    | cons y s =>
      cases htext
      rw [netDepth_cons] at hlevel
      exact Or.inr ⟨s, x, t, rfl, hx, by omega⟩
  · rintro (⟨hc, hlevel⟩ | ⟨s, x, t, rfl, hx, hlevel⟩)
    · exact ⟨[], c, text, rfl, hc, hlevel⟩
    · exact ⟨c :: s, x, t, rfl, hx, by rw [netDepth_cons]; omega⟩

lemma stands_append_iff {s t : List Char} :
    Stands p level (s ++ t) ↔ Stands p level s ∨ Stands p (level - paren.netDepth s) t := by
  induction s generalizing level with
  | nil => simp [not_stands_nil]
  | cons c s ih =>
    rw [List.cons_append, stands_cons_iff, stands_cons_iff, ih, netDepth_cons, Int.sub_sub,
      or_assoc]

/-- Characters may be replaced, as long as the parentheses stay. -/
lemma stands_map_iff {f : Char → Char} (hf : ∀ c, paren.rise (f c) = paren.rise c)
    {text : List Char} : Stands p level (text.map f) ↔ Stands (p ∘ f) level text := by
  induction text generalizing level with
  | nil => simp [not_stands_nil]
  | cons c text ih => rw [List.map_cons, stands_cons_iff, stands_cons_iff, ih, hf, Function.comp]

lemma rise_of_isAtomChar {c : Char} (hc : isAtomChar c = true) : paren.rise c = 0 := by
  obtain ⟨-, hopen, hclose⟩ := isAtomChar_iff.mp hc
  exact rise_symbol hopen hclose

/-- All characters of an atom stand on the same level. -/
lemma stands_atom_iff {name : List Char} (hne : name ≠ [])
    (hname : ∀ c ∈ name, isAtomChar c = true) :
    Stands (fun c => c ≠ ' ' ∧ c ≠ ')') level name ↔ level ≤ 0 := by
  induction name with
  | nil => exact absurd rfl hne
  | cons c name ih =>
    obtain ⟨hc, hname⟩ := List.forall_mem_cons.mp hname
    obtain ⟨hblank, -, hclose⟩ := isAtomChar_iff.mp hc
    rw [stands_cons_iff, rise_of_isAtomChar hc, Int.sub_zero]
    by_cases hnil : name = []
    · subst hnil
      simp [not_stands_nil, hblank, hclose]
    · rw [ih hnil hname]
      tauto

/-- The nodes of the trees that a text spells are enclosed by as many lists as there are
parentheses open in front of them. -/
theorem SpellsItems.stands_iff_deep {trees : List Tree} {text : List Char}
    (h : SpellsItems trees text) :
    Stands (fun c => c ≠ ' ' ∧ c ≠ ')') level text ↔ ∃ t ∈ trees, t.Deep level := by
  induction h generalizing level with
  | nil => simp [not_stands_nil]
  | blank _ ih =>
    have hrise : paren.rise ' ' = 0 := rfl
    rw [stands_cons_iff, hrise, Int.sub_zero, ih]
    simp
  | @atom name _ _ hne hname _ _ ih =>
    have hlevel : paren.netDepth name = 0 :=
      (balanced_of_forall_ne fun c hc => (isAtomChar_iff.mp (hname c hc)).2).netDepth_eq_zero
        (by decide)
    rw [stands_append_iff, stands_atom_iff hne hname, hlevel, Int.sub_zero, ih,
      List.exists_mem_cons_iff, deep_atom_iff]
  | @list _ _ inside _ hinside _ ihinside ihtext =>
    have hopen : paren.rise '(' = 1 := rfl
    have hclose : paren.rise ')' = -1 := rfl
    have hlevel : paren.netDepth inside = 0 := hinside.balanced.netDepth_eq_zero (by decide)
    rw [stands_cons_iff, stands_append_iff, stands_cons_iff, hopen, hclose, hlevel, ihinside,
      ihtext, List.exists_mem_cons_iff, deep_list_iff]
    simp [or_assoc]

/-- A text that spells a tree shows how many levels the tree has. -/
lemma Spells.stands_iff_deep {t : Tree} {text : List Char} (h : t.Spells text) :
    Stands (fun c => c ≠ ' ' ∧ c ≠ ')') level text ↔ t.Deep level := by
  rw [h.spellsItems.stands_iff_deep]
  simp

end TapeTower.Tree
