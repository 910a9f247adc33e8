import TapeTower.Alpha.Token
import TapeTower.Instruction

/-!
# Lowering tokens to instructions

The tokens of a text are found by looking at each of its suffixes on its own: a
suffix that starts with a verb is a token, whose argument is the next numeral, if
one comes before the next token could start. All other characters are comments.

Lowering replaces each token by its program text, pass by pass, until nothing
changes.
-/

namespace TapeTower.Alpha

/-! ### Finding tokens -/

/-- A token could start with this character. -/
def startsToken (c : Char) : Bool :=
  (Instruction.ofChar? c).isSome || c == '=' || (Family.ofLetter? c).isSome

/-- The verb that a text starts with, and the text after it. A family's letter needs
the letter of a direction right after it. -/
def Verb.read? : List Char → Option (Verb × List Char)
  | [] => none
  | c :: text =>
    if (Instruction.ofChar? c).isSome then some (.instruction c, text)
    else if c = '=' then some (.set, text)
    else
      match Family.ofLetter? c, text with
      | some family, d :: text =>
        (Direction.ofLetter? d).map fun direction => (.transfer family direction, text)
      | _, _ => none

/-- The argument in the text after a verb: the first digits, unless a token could
start before them. A missing argument is `1`. -/
def readArgument (text : List Char) : Numeral :=
  let digits := (text.dropWhile fun c => !c.isDigit && !startsToken c).takeWhile Char.isDigit
  (Numeral.ofText? digits).getD .one

/-- The token that a text starts with. -/
def Token.read? (text : List Char) : Option (Token Numeral) :=
  (Verb.read? text).map fun (verb, rest) => ⟨verb, readArgument rest⟩

/-- A text, and the tokens that start in it. -/
structure Scan where
  text : List Char
  tokens : List (Token Numeral)

/-- Puts one more character in front of a scanned text. -/
def Scan.cons (c : Char) (scan : Scan) : Scan :=
  let text := c :: scan.text
  match Token.read? text with
  | some token => ⟨text, token :: scan.tokens⟩
  | none => ⟨text, scan.tokens⟩

/-- The tokens of a text, in order. -/
def tokens (text : List Char) : List (Token Numeral) :=
  (text.foldr Scan.cons ⟨[], []⟩).tokens

/-! ### Lowering -/

/-- The program text of a token as it was read. -/
def Token.lower (table : TemplateTable) (token : Token Numeral) : Except Fault (List Char) := do
  let count ← token.verb.count token.argument
  Token.expand table ⟨token.verb, count⟩

/-- One pass with the given templates. The first token that has no program text decides
the fault. -/
def passWith (table : TemplateTable) (text : List Char) : Except Fault (List Char) :=
  ((tokens text).mapM (Token.lower table)).map List.flatten

/-- The number of passes after which lowering gives up. -/
def maxPasses : Nat := 16

/-- Repeats passes until one changes nothing, for at most `passes` passes. -/
def settle (table : TemplateTable) : (passes : Nat) → (text : List Char) →
    Except Fault (List Char)
  | 0, _ => .error (.noFixedPoint maxPasses)
  | passes + 1, text => do
    let next ← passWith table text
    if next = text then .ok text else settle table passes next

/-- Lowers a text with the given templates until it no longer changes. -/
def lowerWith (table : TemplateTable) (text : List Char) : Except Fault (List Char) := do
  settle table (maxPasses - 1) (← passWith table text)

/-- One pass with the templates of the language. -/
def pass (text : List Char) : Except Fault (List Char) :=
  passWith Template.standard text

/-- Lowers a text of tokens to instructions. -/
def lower (text : List Char) : Except Fault (List Char) :=
  lowerWith Template.standard text

end TapeTower.Alpha
