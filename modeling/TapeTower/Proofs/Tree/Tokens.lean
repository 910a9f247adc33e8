import Mathlib.Data.List.TakeWhile
import Mathlib.Tactic.Common
import TapeTower.Proofs.Balance
import TapeTower.Tree.Parser

/-!
# The grammar of trees

`tokens` reads a text symbol by symbol, without regard to nesting: parentheses, and the
maximal runs of characters that make an atom. `SpellsItems trees text` is the grammar of
the texts of several trees with any blanks around and between them. The two agree: a text
spells some trees exactly if its tokens are the symbols of these trees
(`spellsItems_iff`).

An atom of the grammar is followed by nothing or by a character that cannot belong to it,
since two atoms without a blank between them would be one.
-/

namespace TapeTower.Tree

/-! ### Tokens -/

/-- The tokens of a text: its parentheses and its maximal runs of atom characters. -/
def tokens : List Char → List Symbol
  | [] => []
  | c :: text =>
    if c = ' ' then tokens text
    else if c = '(' then .opening :: tokens text
    else if c = ')' then .closing :: tokens text
    else
      have := Nat.lt_succ_of_le (List.dropWhile_suffix (l := text) isAtomChar).length_le
      .atom (c :: text.takeWhile isAtomChar) :: tokens (text.dropWhile isAtomChar)
termination_by text => text.length

lemma tokens_nil : tokens [] = [] := by
  rw [tokens]

lemma tokens_blank (text : List Char) : tokens (' ' :: text) = tokens text := by
  rw [tokens]
  rfl

lemma tokens_opening (text : List Char) : tokens ('(' :: text) = .opening :: tokens text := by
  rw [tokens]
  rfl

lemma tokens_closing (text : List Char) : tokens (')' :: text) = .closing :: tokens text := by
  rw [tokens]
  rfl

lemma isAtomChar_iff {c : Char} : isAtomChar c = true ↔ c ≠ ' ' ∧ c ≠ '(' ∧ c ≠ ')' := by
  simp [isAtomChar, and_assoc]

lemma tokens_cons {c : Char} (hc : isAtomChar c = true) (text : List Char) :
    tokens (c :: text) =
      .atom (c :: text.takeWhile isAtomChar) :: tokens (text.dropWhile isAtomChar) := by
  obtain ⟨hblank, hopen, hclose⟩ := isAtomChar_iff.mp hc
  rw [tokens, if_neg hblank, if_neg hopen, if_neg hclose]

/-- Nothing stands at the start of a text that an atom before it would take in. -/
def EndsAtom (text : List Char) : Prop := ∀ c ∈ text.head?, isAtomChar c = false

lemma endsAtom_nil : EndsAtom [] := by
  simp [EndsAtom]

lemma EndsAtom.append {s t : List Char} (hs : EndsAtom s) (ht : EndsAtom t) :
    EndsAtom (s ++ t) := by
  cases s with
  | nil => exact ht
  | cons c s => exact hs

lemma EndsAtom.of_append {s t : List Char} (h : EndsAtom (s ++ t)) : EndsAtom s := by
  cases s with
  | nil => exact endsAtom_nil
  | cons c s => exact h

lemma endsAtom_dropWhile (text : List Char) : EndsAtom (text.dropWhile isAtomChar) := by
  intro c hc
  have hhead := List.head?_dropWhile_not isAtomChar text
  rw [Option.mem_def.mp hc] at hhead
  simpa using hhead

/-- Where an atom ends, a run of atom characters ends. -/
lemma takeWhile_append_of_endsAtom {name text : List Char}
    (hname : ∀ c ∈ name, isAtomChar c = true) (htext : EndsAtom text) :
    (name ++ text).takeWhile isAtomChar = name ∧ (name ++ text).dropWhile isAtomChar = text := by
  rw [List.takeWhile_append_of_pos hname, List.dropWhile_append_of_pos hname]
  cases text with
  | nil => simp
  | cons c text =>
    have hc := htext c rfl
    simp [hc]

/-- An atom in front of a text that does not go on with it is one token. -/
lemma tokens_atom_append {name text : List Char} (hne : name ≠ [])
    (hname : ∀ c ∈ name, isAtomChar c = true) (htext : EndsAtom text) :
    tokens (name ++ text) = .atom name :: tokens text := by
  cases name with
  | nil => exact absurd rfl hne
  | cons c name =>
    obtain ⟨htake, hdrop⟩ :=
      takeWhile_append_of_endsAtom (fun x hx => hname x (List.mem_cons_of_mem c hx)) htext
    rw [List.cons_append, tokens_cons (hname c (by simp)), htake, hdrop]

/-! ### The grammar -/

/-- The texts of several trees, with blanks around and between them. -/
inductive SpellsItems : List Tree → List Char → Prop
  | nil : SpellsItems [] []
  | blank {trees text} (htext : SpellsItems trees text) : SpellsItems trees (' ' :: text)
  | atom {name trees text} (hne : name ≠ []) (hname : ∀ c ∈ name, isAtomChar c = true)
      (hend : EndsAtom text) (htext : SpellsItems trees text) :
      SpellsItems (.atom name :: trees) (name ++ text)
  | list {items trees inside text} (hinside : SpellsItems items inside)
      (htext : SpellsItems trees text) :
      SpellsItems (.list items :: trees) ('(' :: (inside ++ ')' :: text))

namespace SpellsItems

variable {trees : List Tree} {text : List Char}

/-- The parentheses of a text that spells trees are balanced. -/
lemma balanced (h : SpellsItems trees text) : Delimiters.paren.Balanced text := by
  induction h with
  | nil => exact .nil
  | blank _ ih => exact .symbol (by decide) (by decide) ih
  | atom _ hname _ _ ih =>
    refine Delimiters.Balanced.append (Delimiters.balanced_of_forall_ne ?_) ih
    intro c hc
    exact (isAtomChar_iff.mp (hname c hc)).2
  | list _ _ ihinside ihtext => exact .group ihinside ihtext

/-- A character of an atom in front of a text is its own atom, or it becomes the first of the
atom that the text starts with. -/
lemma exists_cons {c : Char} (hc : isAtomChar c = true) (h : SpellsItems trees text) :
    ∃ trees', SpellsItems trees' (c :: text) := by
  have hsingle : ∀ x ∈ [c], isAtomChar x = true := by simpa using hc
  cases h with
  | nil => exact ⟨_, .atom (List.cons_ne_nil c []) hsingle endsAtom_nil .nil⟩
  | blank htext =>
    exact ⟨_, .atom (List.cons_ne_nil c []) hsingle (by simp [EndsAtom, isAtomChar]) htext.blank⟩
  | @atom name _ _ _ hname hend htext =>
    exact ⟨_, .atom (List.cons_ne_nil c name) (List.forall_mem_cons.mpr ⟨hc, hname⟩) hend htext⟩
  | list hinside htext =>
    exact ⟨_, .atom (List.cons_ne_nil c []) hsingle (by simp [EndsAtom, isAtomChar])
      (.list hinside htext)⟩

end SpellsItems

/-- A text spells some trees exactly if its parentheses are balanced. -/
theorem exists_spellsItems_iff_balanced {text : List Char} :
    (∃ trees, SpellsItems trees text) ↔ Delimiters.paren.Balanced text := by
  constructor
  · rintro ⟨trees, h⟩
    exact h.balanced
  · intro h
    induction h with
    | nil => exact ⟨[], .nil⟩
    | @symbol c text hopen hclose _ ih =>
      obtain ⟨trees, htext⟩ := ih
      by_cases hblank : c = ' '
      · subst hblank
        exact ⟨trees, .blank htext⟩
      · exact htext.exists_cons (isAtomChar_iff.mpr ⟨hblank, hopen, hclose⟩)
    | group _ _ ihinside ihtext =>
      obtain ⟨items, hinside⟩ := ihinside
      obtain ⟨trees, htext⟩ := ihtext
      exact ⟨.list items :: trees, .list hinside htext⟩

namespace SpellsItems

variable {trees : List Tree} {text : List Char}

/-- A text that spells trees is read as their symbols, whatever follows it. -/
lemma tokens_append (h : SpellsItems trees text) {rest : List Char} (hrest : EndsAtom rest) :
    tokens (text ++ rest) = symbolsItems trees (tokens rest) := by
  induction h generalizing rest with
  | nil => rw [List.nil_append, symbolsItems]
  | blank _ ih => rw [List.cons_append, tokens_blank, ih hrest]
  | atom hne hname hend _ ih =>
    rw [List.append_assoc, tokens_atom_append hne hname (hend.append hrest), ih hrest,
      symbolsItems, symbolsOnto]
  | @list _ _ _ text _ _ ihinside ihtext =>
    have hclose : EndsAtom (')' :: (text ++ rest)) := by simp [EndsAtom, isAtomChar]
    rw [List.cons_append, List.append_assoc, List.cons_append, tokens_opening, ihinside hclose,
      tokens_closing, ihtext hrest, symbolsItems, symbolsOnto]

end SpellsItems

/-! ### Tokens tell the trees -/

/-- The symbols that may follow the items of a list: none, or the end of the list. -/
def EndsItems (rest : List Symbol) : Prop := rest = [] ∨ ∃ more, rest = .closing :: more

section Inversion

variable {trees : List Tree} {rest more : List Symbol}

/-- Without symbols there are no trees. -/
lemma of_symbolsItems_eq_nil (h : symbolsItems trees rest = []) : trees = [] ∧ rest = [] := by
  cases trees with
  | nil => exact ⟨rfl, h⟩
  | cons tree trees => cases tree <;> cases h

/-- The end of a list comes only after all items. -/
lemma of_symbolsItems_eq_closing (h : symbolsItems trees rest = .closing :: more) :
    trees = [] ∧ rest = .closing :: more := by
  cases trees with
  | nil => exact ⟨rfl, h⟩
  | cons tree trees => cases tree <;> cases h

/-- A list begins with its first symbol. -/
lemma of_symbolsItems_eq_opening (hrest : EndsItems rest)
    (h : symbolsItems trees rest = .opening :: more) :
    ∃ items trees', trees = .list items :: trees' ∧
      more = symbolsItems items (.closing :: symbolsItems trees' rest) := by
  cases trees with
  | nil =>
    rcases hrest with rfl | ⟨_, rfl⟩
    · cases h
    · cases h
  | cons tree trees =>
    cases tree with
    | atom name => cases h
    | list items =>
      cases h
      exact ⟨items, trees, rfl, rfl⟩

/-- An atom is its only symbol. -/
lemma of_symbolsItems_eq_atom {name : List Char} (hrest : EndsItems rest)
    (h : symbolsItems trees rest = .atom name :: more) :
    ∃ trees', trees = .atom name :: trees' ∧ more = symbolsItems trees' rest := by
  cases trees with
  | nil =>
    rcases hrest with rfl | ⟨_, rfl⟩
    · cases h
    · cases h
  | cons tree trees =>
    cases tree with
    | atom name =>
      cases h
      exact ⟨trees, rfl, rfl⟩
    | list items => cases h

end Inversion

/-- A text whose tokens start with the symbols of some trees consists of a text that spells
them and a text of the tokens that come after. -/
lemma exists_spellsItems_of_tokens {text : List Char} {trees : List Tree} {rest : List Symbol}
    (h : tokens text = symbolsItems trees rest) (hrest : EndsItems rest) :
    ∃ s t, text = s ++ t ∧ SpellsItems trees s ∧ tokens t = rest ∧
      (t = [] ∨ ∃ t', t = ')' :: t') := by
  induction hn : text.length using Nat.strong_induction_on generalizing text trees rest with
  | _ n ih =>
    cases text with
    | nil =>
      rw [tokens_nil] at h
      obtain ⟨rfl, rfl⟩ := of_symbolsItems_eq_nil h.symm
      exact ⟨[], [], rfl, .nil, tokens_nil, Or.inl rfl⟩
    | cons c text =>
      rw [List.length_cons] at hn
      by_cases hblank : c = ' '
      · subst hblank
        rw [tokens_blank] at h
        obtain ⟨s, t, rfl, hs, ht⟩ := ih _ (by omega) h hrest rfl
        exact ⟨' ' :: s, t, rfl, .blank hs, ht⟩
      by_cases hopen : c = '('
      · subst hopen
        rw [tokens_opening] at h
        obtain ⟨items, trees', rfl, hitems⟩ := of_symbolsItems_eq_opening hrest h.symm
        -- The items reach up to the closing parenthesis, and the other trees come after it.
        obtain ⟨inside, t, rfl, hinside, ht, rfl | ⟨t, rfl⟩⟩ :=
          ih _ (by omega) hitems (Or.inr ⟨_, rfl⟩) rfl
        · rw [tokens_nil] at ht
          cases ht
        · rw [tokens_closing] at ht
          rw [List.length_append, List.length_cons] at hn
          obtain ⟨s, t, rfl, hs, ht⟩ := ih _ (by omega) (List.cons.inj ht).2 hrest rfl
          exact ⟨'(' :: (inside ++ ')' :: s), t, by simp, .list hinside hs, ht⟩
      by_cases hclose : c = ')'
      · subst hclose
        have hend := h
        rw [tokens_closing] at hend
        obtain ⟨rfl, -⟩ := of_symbolsItems_eq_closing hend.symm
        exact ⟨[], _, rfl, .nil, h, Or.inr ⟨text, rfl⟩⟩
      · have hc := isAtomChar_iff.mpr ⟨hblank, hopen, hclose⟩
        rw [tokens_cons hc] at h
        obtain ⟨trees', rfl, hmore⟩ := of_symbolsItems_eq_atom hrest h.symm
        have hlength := (List.dropWhile_suffix (l := text) isAtomChar).length_le
        obtain ⟨s, t, hst, hs, ht⟩ := ih _ (by omega) hmore hrest rfl
        have hend := endsAtom_dropWhile text
        rw [hst] at hend
        refine ⟨c :: text.takeWhile isAtomChar ++ s, t, ?_,
          .atom (by simp) ?_ hend.of_append hs, ht⟩
        · rw [List.append_assoc, ← hst, List.cons_append, List.takeWhile_append_dropWhile]
        · intro x hx
          rcases List.mem_cons.mp hx with rfl | hx
          · exact hc
          · exact List.mem_takeWhile_imp hx

/-- A text spells some trees exactly if its tokens are the symbols of these trees. -/
theorem spellsItems_iff {trees : List Tree} {text : List Char} :
    SpellsItems trees text ↔ tokens text = symbolsItems trees [] := by
  constructor
  · intro h
    have htokens := h.tokens_append endsAtom_nil
    rwa [List.append_nil, tokens_nil] at htokens
  · intro h
    obtain ⟨s, t, rfl, hs, ht, rfl | ⟨t, rfl⟩⟩ := exists_spellsItems_of_tokens h (Or.inl rfl)
    · rwa [List.append_nil]
    · rw [tokens_closing] at ht
      cases ht

end TapeTower.Tree
