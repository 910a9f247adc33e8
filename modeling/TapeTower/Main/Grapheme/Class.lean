import TapeTower.Main.Grapheme.Ranges
import TapeTower.Text.Ranges

/-!
# Grapheme classes

The part that a character plays in a grapheme cluster. Every character has exactly one
class; most have none of the special ones.
-/

namespace TapeTower.Text

/-- What matters about a character when a text is cut into clusters. -/
inductive GraphemeClass where
  | carriageReturn
  | lineFeed
  | control
  | extend
  | joiner
  | spacingMark
  | prepend
  | regionalIndicator
  | pictographic
  | conjunctConsonant
  /-- A leading consonant of Hangul. -/
  | hangulL
  /-- A vowel of Hangul. -/
  | hangulV
  /-- A trailing consonant of Hangul. -/
  | hangulT
  /-- A Hangul syllable without a trailing consonant. -/
  | hangulLV
  /-- A Hangul syllable with a trailing consonant. -/
  | hangulLVT
  | other
  deriving DecidableEq, Repr

/-- The character that joins two pictographs to one. -/
def zeroWidthJoiner : Char := '\u200D'

/-- The character that keeps two letters from joining. -/
def zeroWidthNonJoiner : Char := '\u200C'

namespace GraphemeClass

/-- The class of a character outside of printable ASCII. -/
def ofUncommon (c : Char) : GraphemeClass :=
  if c = '\r' then .carriageReturn
  else if c = '\n' then .lineFeed
  else if inRanges controlRanges c then .control
  else if c = zeroWidthJoiner then .joiner
  else if inRanges extendRanges c then .extend
  else if inRanges spacingMarkRanges c then .spacingMark
  else if inRanges prependRanges c then .prepend
  else if inRanges [(0x1F1E6, 0x1F1FF)] c then .regionalIndicator
  else if inRanges pictographicRanges c then .pictographic
  else if inRanges conjunctConsonantRanges c then .conjunctConsonant
  else if inRanges hangulLeadingRanges c then .hangulL
  else if inRanges hangulVowelRanges c then .hangulV
  else if inRanges hangulTrailingRanges c then .hangulT
  else if inRanges [(0xAC00, 0xD7A3)] c then
    -- The syllables are in blocks of 28, of which the first has no trailing consonant.
    if (c.toNat - 0xAC00) % 28 = 0 then .hangulLV else .hangulLVT
  else .other

/-- The class of a character. No printable character of ASCII has a special class. -/
def ofChar (c : Char) : GraphemeClass :=
  if ' ' ≤ c ∧ c ≤ '~' then .other else ofUncommon c

/-- Whether a character of this class always is a cluster by itself, apart from a carriage
return in front of a line feed. -/
def standsAlone : GraphemeClass → Bool
  | .carriageReturn | .lineFeed | .control => true
  | _ => false

/-- Whether a character of this class continues every cluster. -/
def continues : GraphemeClass → Bool
  | .extend | .joiner | .spacingMark => true
  | _ => false

/-- Whether two parts of Hangul, one after the other, belong to one syllable. -/
def formSyllable : GraphemeClass → GraphemeClass → Bool
  | .hangulL, .hangulL | .hangulL, .hangulV | .hangulL, .hangulLV | .hangulL, .hangulLVT => true
  | .hangulV, .hangulV | .hangulV, .hangulT | .hangulLV, .hangulV | .hangulLV, .hangulT => true
  | .hangulT, .hangulT | .hangulLVT, .hangulT => true
  | _, _ => false

end GraphemeClass

end TapeTower.Text
