/-!
# Trees

A tree is an atom or a list of trees. It is written with parentheses around each
list and one blank between neighbours.
-/

namespace TapeTower

/-- An atom, which is equal to any atom of the same text, or a list of trees. -/
inductive Tree where
  | atom (text : List Char)
  | list (items : List Tree)
  deriving Repr, Inhabited

namespace Tree

mutual

/-- Equality of trees is decided node by node. -/
def decEq : (s t : Tree) → Decidable (s = t)
  | .atom text, .atom text' =>
    if h : text = text' then isTrue (by rw [h]) else isFalse (by simpa using h)
  | .list items, .list items' =>
    match decEqItems items items' with
    | isTrue h => isTrue (by rw [h])
    | isFalse h => isFalse (by simpa using h)
  | .atom _, .list _ => isFalse (by simp)
  | .list _, .atom _ => isFalse (by simp)

/-- Equality of lists of trees, as in `decEq`. -/
def decEqItems : (ss ts : List Tree) → Decidable (ss = ts)
  | [], [] => isTrue rfl
  | s :: ss, t :: ts =>
    match decEq s t, decEqItems ss ts with
    | isTrue h, isTrue h' => isTrue (by rw [h, h'])
    | isFalse h, _ => isFalse (by simp [h])
    | _, isFalse h => isFalse (by simp [h])
  | [], _ :: _ => isFalse (by simp)
  | _ :: _, [] => isFalse (by simp)

end

instance : DecidableEq Tree := decEq

/-! ### Parts of a tree -/

/-- The empty list. -/
def nil : Tree := .list []

/-- The tree is the empty list. -/
def isNil : Tree → Bool
  | .list [] => true
  | _ => false

/-- The first item of a list. -/
def head? : Tree → Option Tree
  | .list items => items.head?
  | .atom _ => none

/-- All items of a list but the first; an atom has none. -/
def tail : Tree → List Tree
  | .list items => items.tail
  | .atom _ => []

/-- The list that calls the function `progn` on the given trees. -/
def progn (body : List Tree) : Tree :=
  .list (.atom ['p', 'r', 'o', 'g', 'n'] :: body)

/-! ### Symbols -/

/-- The symbols that a tree is written with. -/
inductive Symbol where
  | opening
  | closing
  | atom (text : List Char)
  deriving DecidableEq, Repr

mutual

/-- The symbols of a tree in order, in front of `rest`. -/
def symbolsOnto : Tree → (rest : List Symbol) → List Symbol
  | .atom text, rest => .atom text :: rest
  | .list items, rest => .opening :: symbolsItems items (.closing :: rest)

/-- The symbols of the items of a list, in front of `rest`. -/
def symbolsItems : List Tree → (rest : List Symbol) → List Symbol
  | [], rest => rest
  | tree :: items, rest => symbolsOnto tree (symbolsItems items rest)

end

/-- The symbols of a tree in order: a list is its items between parentheses. -/
def symbols (tree : Tree) : List Symbol := tree.symbolsOnto []

/-! ### Writing a tree -/

mutual

/-- The text of a tree, in front of `rest`. -/
def renderOnto : Tree → (rest : List Char) → List Char
  | .atom text, rest => text ++ rest
  | .list [], rest => '(' :: ')' :: rest
  | .list (tree :: items), rest => '(' :: tree.renderOnto (renderItems items (')' :: rest))

/-- The texts of the items of a list after its first, each behind a blank, in
front of `rest`. -/
def renderItems : List Tree → (rest : List Char) → List Char
  | [], rest => rest
  | tree :: items, rest => ' ' :: tree.renderOnto (renderItems items rest)

end

/-- The text of a tree. -/
def render (tree : Tree) : List Char := tree.renderOnto []

end Tree

end TapeTower
