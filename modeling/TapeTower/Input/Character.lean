import TapeTower.Input

/-!
# Reading characters

Characters are read from the input in their UTF-8 form. A sequence that is not
well formed reads as the replacement character, and only the bytes that could
still have begun a character are consumed: the byte that spoils the sequence is
read again as the start of the next character.
-/

namespace TapeTower

/-- The code point that stands for whatever is no character. -/
def replacement : Nat := 0xFFFD

/-- The well-formed UTF-8 sequences whose first byte is from `first` to `last`:
`following` more bytes come after it, and the next one is from `low` to `high`. -/
structure SequenceForm where
  first : UInt8
  last : UInt8
  following : Nat
  low : UInt8
  high : UInt8
  deriving DecidableEq, Repr

/-- All forms of more than one byte. The bounds on the second byte leave out
surrogates, overlong forms and everything above `0x10FFFF`. -/
def sequenceForms : List SequenceForm :=
  [⟨0xC2, 0xDF, 1, 0x80, 0xBF⟩,
    ⟨0xE0, 0xE0, 2, 0xA0, 0xBF⟩,
    ⟨0xE1, 0xEC, 2, 0x80, 0xBF⟩,
    ⟨0xED, 0xED, 2, 0x80, 0x9F⟩,
    ⟨0xEE, 0xEF, 2, 0x80, 0xBF⟩,
    ⟨0xF0, 0xF0, 3, 0x90, 0xBF⟩,
    ⟨0xF1, 0xF3, 3, 0x80, 0xBF⟩,
    ⟨0xF4, 0xF4, 3, 0x80, 0x8F⟩]

namespace SequenceForm

/-- The form of the sequences that start with `byte`. -/
def ofFirst? (byte : UInt8) : Option SequenceForm :=
  sequenceForms.find? fun form => form.first ≤ byte && byte ≤ form.last

/-- The part of a code point that the first byte of a sequence carries: its bits
below the ones that tell the length. -/
def payload (form : SequenceForm) (byte : UInt8) : Nat :=
  byte.toNat % (1 <<< (6 - form.following))

end SequenceForm

namespace Input

/-- Reads the `following` last bytes of a sequence whose earlier bytes carry `code`.
The next byte must be from `low` to `high`, later ones from `0x80` to `0xBF`. -/
def readFollowing :
    (following : Nat) → (low high : UInt8) → (code : Nat) → Input → Except Fault Nat × Input
  | 0, _, _, code, input => (.ok code, input)
  | following + 1, low, high, code, input =>
    match input.next with
    | .byte value rest =>
      if low ≤ value ∧ value ≤ high then
        readFollowing following 0x80 0xBF (code * 64 + value.toNat % 64) rest
      else
        (.ok replacement, input)
    | .failure message rest => (.error (.io message), rest)
    | .done => (.ok replacement, input)

/-- Reads one character and gives its code point, with the input that is left. -/
def readCharacter (input : Input) : Except Fault Nat × Input :=
  match input.next with
  | .byte value rest =>
    if value < 0x80 then
      (.ok value.toNat, rest)
    else
      match SequenceForm.ofFirst? value with
      | some form =>
        readFollowing form.following form.low form.high (form.payload value) rest
      | none => (.ok replacement, rest)
  | .failure message rest => (.error (.io message), rest)
  | .done => (.error .inputExhausted, input)

end Input

end TapeTower
