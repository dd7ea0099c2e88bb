/-
The fields that every record is made of: bytes, words, byte strings, texts and sequences.

A byte is itself, a word is eight bytes with the highest first, and whatever has a variable length
is preceded by it.  Encoders are functions into byte strings, and decoders leave what follows the
field unread.
-/
import Mandate.Wire.Length

namespace Mandate
namespace Wire

def encodeByte (b : UInt8) : Bytes :=
  [b]

def encodeWord (w : UInt64) : Bytes :=
  Bytes.ofNat 8 w.toNat

def encodeByteString (content : Bytes) : Bytes :=
  Length.encode content.length ++ content

def encodeText (s : String) : Bytes :=
  encodeByteString (Utf8.encode s)

/-- The number of elements, and the elements one after another. -/
def encodeSeq {α : Type} (encode : α → Bytes) (as : List α) : Bytes :=
  Length.encode as.length ++ as.flatMap encode

/-- Reads exactly `n` bytes; where there are fewer, all of them are gone. -/
def take (n : Nat) (field : Field) : Decoder WireError Bytes :=
  fun bs =>
    let content := bs.take n
    if content.length = n then (.ok content, bs.drop n) else (.error (.cutOff field), [])

def decodeByte : Decoder WireError UInt8
  | [] => (.error (.cutOff .fixedWidth), [])
  | b :: rest => (.ok b, rest)

def decodeWord : Decoder WireError UInt64 :=
  (take 8 .fixedWidth).refine fun content => .ok (UInt64.ofNat content.toNat)

def decodeByteString : Decoder WireError Bytes :=
  Length.decode.bind fun n => take n .byteString

/-- Reads a byte string and then looks at its content. -/
def decodeText : Decoder WireError String :=
  decodeByteString.refine fun content =>
    (Utf8.decode content).mapError .illFormedText

/-- Reads a byte string that must have `n` bytes. -/
def decodeFixed (n : Nat) : Decoder WireError (FixedBytes n) :=
  decodeByteString.refine fun content =>
    match FixedBytes.ofBytes? n content with
    | some bs => .ok bs
    | none => .error (.lengthMismatch n content.length)

/-- Reads a count and then that many elements.  A failure of the count is reported as the elements
report theirs.  Space for the elements, but for no more than 64 of them whatever the count, is set
aside before the first one is read; that takes no bytes and cannot fail, so nothing of it is seen
here. -/
def decodeSeq {ε α : Type} (ofWire : WireError → ε) (element : Decoder ε α) :
    Decoder ε (List α) :=
  (Length.decode.mapError ofWire).bind element.replicate

end Wire
end Mandate
