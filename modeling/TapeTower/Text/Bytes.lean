/-!
# The bytes of a text

Texts are lists of characters. Positions that a user sees are counted in the
bytes of the UTF-8 form.
-/

namespace TapeTower.Text

/-- The UTF-8 form of a text. -/
def bytes (text : List Char) : List UInt8 :=
  text.flatMap String.utf8EncodeChar

/-- The number of bytes in the UTF-8 form of a text. -/
def byteLength (text : List Char) : Nat :=
  text.foldr (fun c length => c.utf8Size + length) 0

/-- The text whose UTF-8 form is `bytes`, if there is one. -/
def ofBytes? (bytes : List UInt8) : Option (List Char) :=
  (String.fromUTF8? ⟨bytes.toArray⟩).map String.toList

end TapeTower.Text
