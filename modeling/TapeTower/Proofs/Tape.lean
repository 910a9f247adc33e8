import Mathlib.Tactic.Common
import TapeTower.Tape

/-!
# Laws of the tape

Each operation of the tape is described by what it does to the cell under the cursor
and to the cursor. A move in either direction is a `moveTo`, which stops at the ends
(`moveRight_eq`, `moveLeft_eq`), and the two changes of a cell undo each other.
-/

namespace TapeTower.Tape

variable (t : Tape)

/-! ### The cell under the cursor -/

@[simp] lemma current_setCurrent (v : UInt32) : (t.setCurrent v).current = v := by
  simp [current, setCurrent]

@[simp] lemma cursor_setCurrent (v : UInt32) : (t.setCurrent v).cursor = t.cursor := rfl

@[simp] lemma size_setCurrent (v : UInt32) : (t.setCurrent v).size = t.size := by
  simp [size, setCurrent]

@[simp] lemma setCurrent_setCurrent (v w : UInt32) :
    (t.setCurrent v).setCurrent w = t.setCurrent w := by
  simp [setCurrent]

@[simp] lemma setCurrent_current : t.setCurrent t.current = t := by
  cases t
  simp [current, setCurrent]

lemma decrement_increment : t.increment.decrement = t := by
  simp [increment, decrement]

lemma increment_decrement : t.decrement.increment = t := by
  simp [increment, decrement]

/-! ### The cursor -/

lemma cursor_lt_size : t.cursor < t.size := t.cursor_lt

lemma cursor_moveTo (index : Nat) : (t.moveTo index).cursor = min index (t.size - 1) := rfl

@[simp] lemma size_moveTo (index : Nat) : (t.moveTo index).size = t.size := rfl

lemma cursor_moveTo_of_lt {index : Nat} (h : index < t.size) :
    (t.moveTo index).cursor = index := by
  rw [cursor_moveTo]
  omega

@[simp] lemma moveTo_cursor : t.moveTo t.cursor = t := by
  have := t.cursor_lt
  obtain ⟨cells, cursor, hcursor⟩ := t
  have hmin : min cursor (cells.size - 1) = cursor := by omega
  simp [moveTo, hmin]

/-- A move to the right is stopped by the last cell. -/
lemma moveRight_eq : t.moveRight = t.moveTo (t.cursor + 1) := by
  have := t.cursor_lt
  unfold moveRight moveTo
  split
  · have hmin : min (t.cursor + 1) (t.cells.size - 1) = t.cursor + 1 := by omega
    simp [hmin]
  · have hmin : min (t.cursor + 1) (t.cells.size - 1) = t.cursor := by omega
    simp [hmin]

/-- A move to the left is stopped by the first cell. -/
lemma moveLeft_eq : t.moveLeft = t.moveTo (t.cursor - 1) := by
  have := t.cursor_lt
  have hmin : min (t.cursor - 1) (t.cells.size - 1) = t.cursor - 1 := by omega
  simp [moveLeft, moveTo, hmin]

/-! ### The number of cells -/

@[simp] lemma size_blank (size : Nat) : (blank size).size = max size 1 := by
  simp [Tape.size, blank]

@[simp] lemma size_moveRight : t.moveRight.size = t.size := by
  rw [moveRight_eq, size_moveTo]

@[simp] lemma size_moveLeft : t.moveLeft.size = t.size := by
  rw [moveLeft_eq, size_moveTo]

@[simp] lemma size_increment : t.increment.size = t.size := t.size_setCurrent _

@[simp] lemma size_decrement : t.decrement.size = t.size := t.size_setCurrent _

@[simp] lemma size_set (index : Nat) (v : UInt32) : (t.set index v).size = t.size := by
  simp [size, set]

/-! ### All cells -/

lemma get?_cursor : t.get? t.cursor = some t.current :=
  Array.getElem?_eq_getElem t.cursor_lt

lemma exists_get?_eq_some {index : Nat} (h : index < t.size) : ∃ v, t.get? index = some v :=
  ⟨t.cells[index], Array.getElem?_eq_getElem h⟩

@[simp] lemma get?_moveTo (index index' : Nat) : (t.moveTo index).get? index' = t.get? index' := rfl

lemma get?_setCurrent (v : UInt32) (index : Nat) :
    (t.setCurrent v).get? index = if index = t.cursor then some v else t.get? index := by
  simp [get?, setCurrent, Array.getElem?_set, eq_comm]

lemma get?_set {index : Nat} (h : index < t.size) (v : UInt32) (index' : Nat) :
    (t.set index v).get? index' = if index' = index then some v else t.get? index' := by
  simp only [get?, set, Array.getElem?_setIfInBounds, eq_comm (a := index)]
  split
  · exact if_pos h
  · rfl

@[simp] lemma cursor_set (index : Nat) (v : UInt32) : (t.set index v).cursor = t.cursor := rfl

variable {t} in
/-- A tape is known by its cursor and its cells. -/
lemma ext_get? {u : Tape} (hcursor : t.cursor = u.cursor)
    (hget : ∀ index, t.get? index = u.get? index) : t = u := by
  obtain ⟨cells, cursor, _⟩ := t
  obtain ⟨cells', cursor', _⟩ := u
  obtain rfl : cursor = cursor' := hcursor
  obtain rfl : cells = cells' := Array.ext_getElem? hget
  rfl

variable {t} in
/-- The current cell is the one at the cursor. -/
lemma current_eq_of_get? {v : UInt32} (h : t.get? t.cursor = some v) : t.current = v := by
  rw [get?_cursor] at h
  exact Option.some.inj h

/-! ### Carrying a cell over -/

section Carry

variable {t : Tape} {f : UInt32 → UInt32} {g : UInt32 → UInt32 → UInt32} {index : Nat}

/-- The current cell is combined with another one and becomes zero. -/
def carry (g : UInt32 → UInt32 → UInt32) (index : Nat) (t : Tape) : Tape :=
  (t.set index (g ((t.get? index).getD 0) t.current)).setCurrent 0

/-- One unit is taken from the current cell, and another cell is changed for it. -/
def carryUnit (f : UInt32 → UInt32) (index : Nat) (t : Tape) : Tape :=
  let there := (t.setCurrent (t.current - 1)).moveTo index
  (there.setCurrent (f there.current)).moveTo t.cursor

lemma get?_carry (hindex : index < t.size) (k : Nat) :
    (t.carry g index).get? k =
      if k = t.cursor then some 0
      else if k = index then some (g ((t.get? index).getD 0) t.current)
      else t.get? k := by
  rw [carry, get?_setCurrent, get?_set _ hindex, cursor_set]

@[simp] lemma cursor_carry : (t.carry g index).cursor = t.cursor := rfl

@[simp] lemma cursor_carryUnit : (t.carryUnit f index).cursor = t.cursor := by
  rw [carryUnit, cursor_moveTo_of_lt]
  simpa using t.cursor_lt_size

@[simp] lemma size_carryUnit : (t.carryUnit f index).size = t.size := by
  simp [carryUnit]

lemma get?_carryUnit (hindex : index < t.size) (hne : index ≠ t.cursor) (k : Nat) :
    (t.carryUnit f index).get? k =
      if k = index then (t.get? index).map f
      else if k = t.cursor then some (t.current - 1)
      else t.get? k := by
  obtain ⟨v, hv⟩ := t.exists_get?_eq_some hindex
  have hcursor : ((t.setCurrent (t.current - 1)).moveTo index).cursor = index :=
    cursor_moveTo_of_lt _ (by simpa using hindex)
  have hcurrent : ((t.setCurrent (t.current - 1)).moveTo index).current = v := by
    apply current_eq_of_get?
    rw [hcursor, get?_moveTo, get?_setCurrent, if_neg hne, hv]
  rw [carryUnit, get?_moveTo, get?_setCurrent, hcursor, hcurrent, get?_moveTo, get?_setCurrent,
    hv, Option.map_some]

lemma current_carryUnit (hindex : index < t.size) (hne : index ≠ t.cursor) :
    (t.carryUnit f index).current = t.current - 1 := by
  apply current_eq_of_get?
  rw [cursor_carryUnit, get?_carryUnit hindex hne, if_neg hne.symm, if_pos rfl]

/-- Carrying over what is left after one unit is carrying over the whole. -/
lemma carry_carryUnit (hfg : ∀ a b, g (f a) (b - 1) = g a b) (hindex : index < t.size)
    (hne : index ≠ t.cursor) : (t.carryUnit f index).carry g index = t.carry g index := by
  obtain ⟨v, hv⟩ := t.exists_get?_eq_some hindex
  refine ext_get? (by simp) fun k => ?_
  rw [get?_carry (by simpa using hindex), get?_carry hindex, current_carryUnit hindex hne,
    get?_carryUnit hindex hne, get?_carryUnit hindex hne, cursor_carryUnit, if_pos rfl, hv]
  simp only [Option.map_some, Option.getD_some, hfg]
  split
  · rfl
  · split
    · rfl
    · rfl

/-- There is nothing to carry over from a cell that is zero. -/
lemma carry_of_current_eq_zero (hg : ∀ a, g a 0 = a) (hindex : index < t.size)
    (hzero : t.current = 0) : t.carry g index = t := by
  obtain ⟨v, hv⟩ := t.exists_get?_eq_some hindex
  refine ext_get? rfl fun k => ?_
  rw [get?_carry hindex, hzero, hv, Option.getD_some, hg]
  split
  · next hk => rw [hk, get?_cursor, hzero]
  · split
    · next hk => rw [hk, hv]
    · rfl

/-- Carrying over to a cell that has been cleared does not depend on what was there. -/
lemma carry_moveTo_clear (hindex : index < t.size) (hne : index ≠ t.cursor) :
    (((t.moveTo index).setCurrent 0).moveTo t.cursor).carry g index =
      t.carry (fun _ here => g 0 here) index := by
  have hsize : index < (((t.moveTo index).setCurrent 0).moveTo t.cursor).size := by
    simpa using hindex
  have hcursor : (((t.moveTo index).setCurrent 0).moveTo t.cursor).cursor = t.cursor :=
    cursor_moveTo_of_lt _ (by simpa using t.cursor_lt_size)
  have hget : ∀ k, (((t.moveTo index).setCurrent 0).moveTo t.cursor).get? k =
      if k = index then some 0 else t.get? k := by
    intro k
    rw [get?_moveTo, get?_setCurrent, cursor_moveTo_of_lt _ hindex, get?_moveTo]
  have hcurrent : (((t.moveTo index).setCurrent 0).moveTo t.cursor).current = t.current := by
    apply current_eq_of_get?
    rw [hcursor, hget, if_neg hne.symm, get?_cursor]
  refine ext_get? hcursor fun k => ?_
  rw [get?_carry hsize, get?_carry hindex, hcursor, hcurrent, hget, hget, if_pos rfl,
    Option.getD_some]
  split
  · rfl
  · split
    · rfl
    · rfl

end Carry

end TapeTower.Tape
