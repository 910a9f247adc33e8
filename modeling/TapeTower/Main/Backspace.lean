import TapeTower.CommandLine.Pipe
import TapeTower.Main.Grapheme

/-!
# Backspaces in a line

The reader of the program takes its lines from a pipe, where a line may hold backspaces.
Each erases the grapheme cluster that would stand before it on a screen, and is no part of
the line itself.
-/

namespace TapeTower

/-- The character that erases what stands before it. -/
def backspace : Char := '\x08'

/-- A line while its backspaces are applied. -/
structure Draft where
  /-- The text that is left so far, latest character first. -/
  kept : List Char
  /-- For each cluster that is left, latest first, how many bytes it takes to erase it. The
  count is kept in one byte, so that a cluster of 256 bytes or more is erased in part. -/
  sizes : List UInt8
  deriving DecidableEq, Repr

namespace Draft

/-- Nothing typed yet. -/
def empty : Draft := ⟨[], []⟩

/-- Takes `count` bytes from the end of a text that is given latest character first. There
is no answer if they end inside a character. -/
def dropBytes? : (text : List Char) → (count : Nat) → Option (List Char)
  | text, 0 => some text
  | [], _ + 1 => none
  | c :: text, count + 1 =>
    if c.utf8Size ≤ count + 1 then dropBytes? text (count + 1 - c.utf8Size) else none

/-- Adds a cluster at the end. -/
def insert (draft : Draft) (cluster : List Char) : Draft where
  kept := cluster.reverse ++ draft.kept
  sizes := UInt8.ofNat (Text.byteLength cluster) :: draft.sizes

/-- Erases the last cluster, if there is one. -/
def erase? (draft : Draft) : Option Draft :=
  match draft.sizes with
  | [] => some draft
  | size :: sizes => (dropBytes? draft.kept size.toNat).map fun kept => ⟨kept, sizes⟩

/-- Takes in the next cluster of a line. -/
def type? (draft : Draft) (cluster : List Char) : Option Draft :=
  if cluster = [backspace] then draft.erase? else some (draft.insert cluster)

end Draft

/-- A line after its backspaces. There is none if one of them would leave a part of a
character. -/
def applyBackspaces? (line : List Char) : Option (List Char) :=
  ((Text.clusters line).foldlM Draft.type? Draft.empty).map fun draft => draft.kept.reverse

namespace Repl

/-- Takes a line from a pipe, as it was typed: with its backspaces applied. -/
def Reader.typed : Reader := fun prompt stdin =>
  match Reader.pipe prompt stdin with
  | .text line rest =>
    match applyBackspaces? line with
    | some line => .text line rest
    | none => .aborted
  | other => other

end Repl

end TapeTower
