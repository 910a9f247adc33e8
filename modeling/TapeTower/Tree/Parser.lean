import TapeTower.Delimiter
import TapeTower.Fault
import TapeTower.Text.Blank
import TapeTower.Text.Bytes
import TapeTower.Tree

/-!
# Reading trees

A text is read as one tree. Line ends and tabs count as blanks, and blanks around
the tree are dropped; positions in faults refer to the text after that. A list is
read in two steps: the text between its parentheses is cut into the texts of its
items, and then each of these is read on its own, one level deeper.
-/

namespace TapeTower.Tree

/-- The number of levels that a tree may have: no node is enclosed by so many
lists. -/
def maxDepth : Nat := 512

/-- A part of a text, and the byte at which it begins there. -/
structure Fragment where
  text : List Char
  offset : Nat

/-- An atom is made of characters other than the blank and the parentheses. -/
def isAtomChar (c : Char) : Bool := c != ' ' && c != '(' && c != ')'

/-- Line ends and tabs become blanks, and the text is trimmed. -/
def normalize (text : List Char) : List Char :=
  Text.trim (text.map fun c => if c = '\n' ∨ c = '\t' ∨ c = '\r' then ' ' else c)

/-- The text behind an opening parenthesis, divided at its partner. -/
def splitGroup? (text : List Char) : Option (List Char × List Char) :=
  match leaveLevel '(' ')' 0 [] text with
  | some (_ :: inside, rest) => some (inside.reverse, rest)
  | _ => none

theorem length_lt_of_splitGroup? {text inside rest : List Char}
    (h : splitGroup? text = some (inside, rest)) : rest.length < text.length := by
  unfold splitGroup? at h
  split at h
  · next h' => cases h; exact length_lt_of_leaveLevel h'
  · cases h

theorem length_lt_of_dropWhile {p : Char → Bool} {text rest : List Char} {c : Char}
    (h : text.dropWhile p = c :: rest) : rest.length < text.length := by
  have := (List.dropWhile_suffix (l := text) p).length_le
  rw [h] at this
  exact this

/-- Cuts the text between two parentheses into the texts of the items. -/
def items (part : Fragment) : Except Fault (List Fragment) :=
  let offset := part.offset + (part.text.takeWhile (· = ' ')).length
  match hpart : part.text.dropWhile (· = ' ') with
  | [] => .ok []
  | '(' :: text =>
    match hgroup : splitGroup? text with
    | some (inside, rest) =>
      have := Nat.lt_trans (length_lt_of_splitGroup? hgroup) (length_lt_of_dropWhile hpart)
      let item : Fragment := ⟨'(' :: inside ++ [')'], offset⟩
      (items ⟨rest, offset + Text.byteLength item.text⟩).map (item :: ·)
    | none => .error (.unmatchedDelimiter '(' offset)
  | c :: text =>
    if isAtomChar c then
      have := Nat.lt_of_le_of_lt (List.dropWhile_suffix isAtomChar).length_le
        (length_lt_of_dropWhile hpart)
      let item : Fragment := ⟨c :: text.takeWhile isAtomChar, offset⟩
      (items ⟨text.dropWhile isAtomChar, offset + Text.byteLength item.text⟩).map (item :: ·)
    else
      .error (.unmatchedDelimiter ')' offset)
termination_by part.text.length

/-- The fault that text is left after a tree. -/
def trailing (rest : List Char) : Fault :=
  .parse (.trailingContent (String.ofList (Text.trim rest)))

/-- Reads the whole of a fragment as a tree of at most `levels` levels. -/
def parseFragment : (levels : Nat) → Fragment → Except Fault Tree
  | 0, _ => .error (.parse (.tooDeeplyNested maxDepth))
  | levels + 1, ⟨text, offset⟩ =>
    match text with
    | '(' :: text =>
      match splitGroup? text with
      | some (inside, []) => do
        let parts ← items ⟨inside, offset + 1⟩
        return .list (← parts.mapM (parseFragment levels))
      | some (_, rest) => .error (trailing rest)
      | none => .error (.unmatchedDelimiter '(' offset)
    | text =>
      match text.takeWhile isAtomChar, text.dropWhile isAtomChar with
      | [], _ => .error (.unmatchedDelimiter ')' offset)
      | name, [] => .ok (.atom name)
      | _, rest => .error (trailing rest)

/-- Reads a text as one tree. -/
def parse (text : List Char) : Except Fault Tree :=
  match normalize text with
  | [] => .error (.parse .empty)
  | text => parseFragment maxDepth ⟨text, 0⟩

end TapeTower.Tree
