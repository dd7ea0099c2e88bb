/-
Weighted authors and the envelope that carries them.

An envelope is a tag byte, a payload as a byte string, and a weight.  It can be read whatever the
payload holds; only then is the payload read as an owner of the tagged scheme.  So a reader of
authors stops at the same byte as a reader of envelopes, whether or not the owner is acceptable.
-/
import Mandate.Owner

namespace Mandate

structure Author where
  owner : Owner
  weight : UInt64
deriving DecidableEq

/-- An author as it travels, with a tag and a payload that nobody has looked at yet. -/
structure Envelope where
  tag : UInt8
  payload : Bytes
  weight : UInt64
deriving DecidableEq

namespace Envelope

def scheme (e : Envelope) : Except AuthorError Scheme :=
  Scheme.ofTag e.tag

def encode (e : Envelope) : Bytes :=
  Wire.encodeByte e.tag ++ Wire.encodeByteString e.payload ++ Wire.encodeWord e.weight

def write (e : Envelope) : Writer WireError :=
  (Wire.writeByte e.tag).andThen
    ((Wire.writeByteString e.payload).andThen (Wire.writeWord e.weight))

def decoder : Decoder WireError Envelope :=
  Wire.decodeByte.bind fun tag =>
    Wire.decodeByteString.bind fun payload =>
      Wire.decodeWord.bind fun weight => .pure ⟨tag, payload, weight⟩

end Envelope

namespace Author

def scheme (a : Author) : Scheme :=
  a.owner.scheme

def toEnvelope (a : Author) : Envelope :=
  ⟨a.scheme.tag, a.owner.payload, a.weight⟩

/-- Opens an envelope: first the tag, then the payload. -/
def ofEnvelope (e : Envelope) : Except AuthorError Author :=
  e.scheme.bind fun s => (Owner.ofPayload s e.payload).map fun owner => ⟨owner, e.weight⟩

def encode (a : Author) : Bytes :=
  a.toEnvelope.encode

def write (a : Author) : Writer AuthorError :=
  a.toEnvelope.write.mapError .stream

def decoder : Decoder AuthorError Author :=
  (Envelope.decoder.mapError .stream).refine ofEnvelope

end Author

end Mandate
