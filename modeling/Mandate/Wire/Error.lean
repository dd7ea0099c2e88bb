/-
Why the binary layout cannot be read or written.

Each constructor is one cause; the sentence for it stands in `WireError.message` and nowhere else.
-/
import Mandate.Text.Utf8

namespace Mandate

/-- The kind of field that the end of the input cuts off. -/
inductive Field
  | fixedWidth
  | byteString
deriving DecidableEq, Repr

/-- What goes wrong at the level of bytes. -/
inductive WireError
  /-- The input ends inside a length. -/
  | lengthCutOff
  /-- A length does not fit in 64 bits. -/
  | lengthOverflow
  /-- The input ends inside a field. -/
  | cutOff (field : Field)
  /-- A bounded sink is full. -/
  | noRoom
  /-- A byte string does not have the length that its type asks for. -/
  | lengthMismatch (expected found : Nat)
  /-- A text is not UTF-8. -/
  | illFormedText (fault : Utf8.Fault)
  /-- Bytes are left after the value. -/
  | trailing (count : Nat)
deriving DecidableEq, Repr

namespace WireError

def message : WireError → String
  | lengthCutOff => "Failed to decode an integer: failed to fill whole buffer"
  | lengthOverflow =>
    "Failed to decode an integer: The number being read is larger than can be represented"
  | cutOff .fixedWidth => "Failed to decode a buffer: failed to fill whole buffer"
  | cutOff .byteString => "Failed to decode a buffer: unexpected end of file"
  | noRoom => "Failed to decode a buffer: failed to write whole buffer"
  | lengthMismatch expected found =>
    "Expected " ++ toString expected ++ " bytes, found " ++ toString found
  | illFormedText fault => "Invalid UTF-8 in string field: " ++ fault.message
  | trailing count => toString count ++ " trailing bytes after decoded value"

/-- Whether more input could have made the difference. -/
def isEndOfStream : WireError → Bool
  | lengthCutOff => true
  | cutOff _ => true
  | _ => false

end WireError

end Mandate
