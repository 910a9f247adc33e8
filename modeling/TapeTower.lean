import TapeTower.Main
import TapeTower.Proofs.Alpha.Brackets
import TapeTower.Proofs.Alpha.Composition
import TapeTower.Proofs.Alpha.Effect
import TapeTower.Proofs.Alpha.Template
import TapeTower.Proofs.Beta.Distance
import TapeTower.Proofs.Beta.Lowering
import TapeTower.Proofs.Cancellation.Deletion
import TapeTower.Proofs.CommandLine.Dump
import TapeTower.Proofs.CommandLine.Gathering
import TapeTower.Proofs.Depth
import TapeTower.Proofs.Dialect
import TapeTower.Proofs.Encoder.Grouping
import TapeTower.Proofs.Encoder.Looped
import TapeTower.Proofs.Encoder.Naive
import TapeTower.Proofs.Input.Character
import TapeTower.Proofs.Machine.Bounds
import TapeTower.Proofs.Machine.Comments
import TapeTower.Proofs.Machine.Copy
import TapeTower.Proofs.Machine.Minimized
import TapeTower.Proofs.Machine.Refusal
import TapeTower.Proofs.Machine.Sink
import TapeTower.Proofs.Machine.Turns
import TapeTower.Proofs.Pairing
import TapeTower.Proofs.Partner
import TapeTower.Proofs.Session
import TapeTower.Proofs.Tape.Memory
import TapeTower.Proofs.Tree.Blanks
import TapeTower.Proofs.Tree.Faults
import TapeTower.Proofs.Tree.Levels
import TapeTower.Proofs.Tree.Render
import TapeTower.Proofs.Tree.Unmatched
import TapeTower.Proofs.Tree.Whitespace
import TapeTower.Proofs.Unfinished
import TapeTower.Session
