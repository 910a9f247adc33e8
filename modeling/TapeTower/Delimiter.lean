import TapeTower.Direction

/-!
# Paired delimiters

Loop brackets and parentheses are found and matched in the same way. A text is
looked at from a `Place`, with the part behind it kept nearest first: looking
forward and looking back are then the same walk over a list, with the two
delimiters in exchanged roles.

The symbols are of any type with decidable equality, so that the same matching
serves characters and bytes.
-/

namespace TapeTower

variable {α : Type}

/-- A delimiter that opens and one that closes. -/
structure Delimiters (α : Type) where
  opening : α
  closing : α
  deriving DecidableEq, Repr

/-- The two sides of a pair of delimiters. -/
inductive Side where
  | opening
  | closing
  deriving DecidableEq, Repr

/-- A place in a text: what lies behind it, nearest first, and what lies ahead. -/
structure Place (α : Type) where
  behind : List α
  ahead : List α
  deriving Repr

/-! ### Walking to the partner -/

/-- Walks along `ahead`, laying what it passes onto `passed`, until it has left
one level more than it has entered; `depth` is the number of levels entered and
not left yet. The last symbol passed is the one that leaves. -/
@[specialize] def leaveLevel [DecidableEq α] (enter leave : α) :
    (depth : Nat) → (passed ahead : List α) → Option (List α × List α)
  | _, _, [] => none
  | depth, passed, x :: ahead =>
    if x = enter then
      leaveLevel enter leave (depth + 1) (x :: passed) ahead
    else if x = leave then
      match depth with
      | 0 => some (x :: passed, ahead)
      | depth + 1 => leaveLevel enter leave depth (x :: passed) ahead
    else
      leaveLevel enter leave depth (x :: passed) ahead

/-- Leaving a level uses up a part of the text. -/
theorem length_lt_of_leaveLevel [DecidableEq α] {enter leave : α} {depth : Nat}
    {passed ahead passed' rest : List α}
    (h : leaveLevel enter leave depth passed ahead = some (passed', rest)) :
    rest.length < ahead.length := by
  fun_induction leaveLevel enter leave depth passed ahead with
  | case1 => cases h
  | case2 _ _ _ ih => have := ih h; simp only [List.length_cons]; omega
  | case3 => cases h; simp
  | case4 _ _ _ _ ih => have := ih h; simp only [List.length_cons]; omega
  | case5 _ _ _ _ _ _ ih => have := ih h; simp only [List.length_cons]; omega

namespace Place

/-- The place in front of the symbol with the given index. -/
def atIndex (text : List α) (index : Nat) : Place α where
  behind := (text.take index).reverse
  ahead := text.drop index

/-- From a place in front of a delimiter to the place just after its partner:
an opening delimiter looks forward and a closing one backward. -/
@[specialize] def afterPartner [DecidableEq α] (d : Delimiters α) (direction : Direction)
    (place : Place α) : Option (Place α) :=
  match direction with
  | .forward =>
    match place.ahead with
    | [] => none
    | x :: ahead =>
      (leaveLevel d.opening d.closing 0 (x :: place.behind) ahead).map fun (behind, ahead) =>
        { behind, ahead }
  | .backward =>
    match leaveLevel d.closing d.opening 0 place.ahead place.behind with
    | some (x :: ahead, behind) => some { behind := x :: behind, ahead }
    | _ => none

end Place

namespace Delimiters

/-- The brackets around a loop. -/
def loop : Delimiters Char := ⟨'[', ']'⟩

/-- The parentheses around a list. -/
def paren : Delimiters Char := ⟨'(', ')'⟩

/-- The delimiter of one side. -/
def symbol (d : Delimiters α) : Side → α
  | .opening => d.opening
  | .closing => d.closing

variable [DecidableEq α] (d : Delimiters α)

/-- The index of the partner of the delimiter at `index`, which must be an
opening one to look forward and a closing one to look backward. -/
def matchIndex (text : List α) (index : Nat) (direction : Direction) : Option Nat :=
  ((Place.atIndex text index).afterPartner d direction).map fun place => place.behind.length - 1

/-! ### Balance -/

/-- The number of opening delimiters less the number of closing ones. -/
@[specialize] def netDepth (text : List α) : Int :=
  text.foldl
    (fun depth x =>
      if x = d.opening then depth + 1 else if x = d.closing then depth - 1 else depth)
    0

/-- There are as many closing delimiters as opening ones, in whatever order. -/
@[specialize] def allMatched (text : List α) : Bool :=
  d.netDepth text == 0

/-- Continues `firstUnmatched` at `index`; `waiting` are the indices of the
opening delimiters that wait for a partner, innermost first. -/
@[specialize] def firstUnmatchedFrom (index : Nat) (waiting : List Nat) :
    List α → Option (Side × Nat)
  | [] => waiting.getLast?.map fun first => (.opening, first)
  | x :: text =>
    if x = d.opening then
      firstUnmatchedFrom (index + 1) (index :: waiting) text
    else if x = d.closing then
      match waiting with
      | [] => some (.closing, index)
      | _ :: waiting => firstUnmatchedFrom (index + 1) waiting text
    else
      firstUnmatchedFrom (index + 1) waiting text

/-- The side and the index of the first delimiter without a partner: a closing
one that nothing has opened or, if there is none, the outermost opening one that
is never closed. -/
@[specialize] def firstUnmatched (text : List α) : Option (Side × Nat) :=
  d.firstUnmatchedFrom 0 [] text

end Delimiters

end TapeTower
