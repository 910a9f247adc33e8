import TapeTower.Beta
import TapeTower.Proofs.Machine.Output
import TapeTower.Proofs.Machine.Transfer

/-!
# What trees mean

`Eval tree m e` is the meaning of a tree as a program: called with the machine `m`, it ends
with the outcome `e`. It knows nothing of tokens and program text. The calls of `progn` come
one after the other, the body of `while-n-0` is repeated while the current cell is not zero,
and any other function has its effect at once (`Effect`).

A tree has a meaning only where it stays on the tape: no rule lets the cursor move past an
end or a cell be carried over to a place that does not exist. Output is always delivered
here, so that the meaning is that of a machine whose sink never fails.
-/

namespace TapeTower

namespace Beta

open Alpha

/-! ### The meaning of a call -/

/-- The tree calls a function with some arguments. -/
def Calls (t : Tree) (function : Function) (arguments : List Tree) : Prop :=
  ∃ name, t = .list (.atom name :: arguments) ∧
    Function.ofName? (String.ofList name) = some function

/-- The family of the functions that carry a cell over. -/
def Function.family? : Function → Option Family
  | .addRelative => some .add
  | .subRelative => some .sub
  | .moveRelative => some .move
  | _ => none

/-- What the functions without a body do. -/
inductive Effect : Function → List Tree → Machine → Ending → Prop
  | input (arguments m) : Effect .input arguments m m.receive
  | output (arguments m) : Effect .output arguments m (.ok (), m.emit)
  | setTo {arguments n} (m) (hn : countArgument .setTo arguments = .ok n) :
      Effect .setTo arguments m (.ok (), m.store (UInt32.ofNat n.value))
  | increment {arguments n} (m) (hn : countArgument .increment arguments = .ok n) :
      Effect .increment arguments m (.ok (), m.store (m.tape.current + UInt32.ofNat n.value))
  | decrement {arguments n} (m) (hn : countArgument .decrement arguments = .ok n) :
      Effect .decrement arguments m (.ok (), m.store (m.tape.current - UInt32.ofNat n.value))
  | right {arguments n m} (hn : countArgument .right arguments = .ok n)
      (hto : m.tape.cursor + min n.value largest < m.tape.size) :
      Effect .right arguments m (.ok (), m.goTo (m.tape.cursor + min n.value largest))
  | left {arguments n m} (hn : countArgument .left arguments = .ok n)
      (hto : min n.value largest ≤ m.tape.cursor) :
      Effect .left arguments m (.ok (), m.goTo (m.tape.cursor - min n.value largest))
  | stay {function family arguments} (m) (hfamily : function.family? = some family)
      (hd : distanceArgument function arguments = .ok 0) :
      Effect function arguments m (.ok (), m)
  | carry {function family arguments distance m} {index : Nat}
      (hfamily : function.family? = some family)
      (hd : distanceArgument function arguments = .ok distance) (hne : distance ≠ 0)
      (hto : m.tape.cursor + distance = index) (hindex : index < m.tape.size) :
      Effect function arguments m (.ok (), m.carry family.combine index)

/-- `Eval t m e` says that the tree `t`, called with the machine `m`, ends with the outcome
`e`. -/
inductive Eval : Tree → Machine → Ending → Prop
  | effect {t function arguments m e} (ht : Calls t function arguments)
      (heffect : Effect function arguments m e) : Eval t m e
  | prognNil {t} (m) (ht : Calls t .progn []) : Eval t m (.ok (), m)
  | prognCons {t call calls m m' e} (ht : Calls t .progn (call :: calls))
      (hcall : Eval call m (.ok (), m')) (hcalls : Eval (Tree.progn calls) m' e) : Eval t m e
  | prognFault {t call calls m fault m'} (ht : Calls t .progn (call :: calls))
      (hcall : Eval call m (.error fault, m')) : Eval t m (.error fault, m')
  | whileEnd {t body m} (ht : Calls t .whileNonzero body) (hcell : m.tape.current = 0) :
      Eval t m (.ok (), m)
  | whileAgain {t body m m' e} (ht : Calls t .whileNonzero body) (hcell : m.tape.current ≠ 0)
      (hbody : Eval (Tree.progn body) m (.ok (), m')) (hagain : Eval t m' e) : Eval t m e
  | whileFault {t body m fault m'} (ht : Calls t .whileNonzero body)
      (hcell : m.tape.current ≠ 0) (hbody : Eval (Tree.progn body) m (.error fault, m')) :
      Eval t m (.error fault, m')

variable {t : Tree} {m : Machine} {e : Ending}

/-- No effect makes a sink fail. -/
lemma Effect.neverFails {function : Function} {arguments : List Tree}
    (h : Effect function arguments m e) (hsink : m.sink.NeverFails) : e.2.sink.NeverFails := by
  cases h with
  | input =>
    unfold Machine.receive
    split <;> exact hsink
  | _ => exact hsink

/-- No tree makes a sink fail. -/
lemma Eval.neverFails (h : Eval t m e) (hsink : m.sink.NeverFails) : e.2.sink.NeverFails := by
  induction h with
  | effect _ heffect => exact heffect.neverFails hsink
  | prognNil => exact hsink
  | prognCons _ _ _ ihcall ihcalls => exact ihcalls (ihcall hsink)
  | prognFault _ _ ih => exact ih hsink
  | whileEnd => exact hsink
  | whileAgain _ _ _ _ ihbody ihagain => exact ihagain (ihbody hsink)
  | whileFault _ _ _ ih => exact ih hsink

end Beta

end TapeTower
