/-
All the types that can be written and read, in one place.

A `Format` names a type, and every operation on records is one function over all formats: its
values, how they are encoded, how they are read from a stream, and in which layer's terms failures
are reported.
-/
import Mandate.Batch

namespace Mandate

/-- Whose errors a format reports. -/
inductive Layer
  | wire
  | identity
  | author
deriving DecidableEq, Repr

namespace Layer

def Error : Layer → Type
  | wire => WireError
  | identity => IdentityError
  | author => AuthorError

/-- How a layer reports a failure at the level of bytes. -/
def ofWire : (l : Layer) → WireError → l.Error
  | wire, e => e
  | identity, e => IdentityError.wire e
  | author, e => AuthorError.stream e

end Layer

/-- A type that has a binary form. -/
inductive Format
  | byte
  | word
  | text
  /-- A byte string. -/
  | raw
  | fixed (n : Nat)
  | name
  | key (k : KeyKind)
  | envelope
  | author
  | actionKind
  | action
  | batch
  | seq (element : Format)
deriving DecidableEq, Repr

namespace Format

def Value : Format → Type
  | byte => UInt8
  | word => UInt64
  | text => String
  | raw => Bytes
  | fixed n => FixedBytes n
  | name => Name
  | key k => Key k
  | envelope => Envelope
  | author => Author
  | actionKind => ActionKind
  | action => Action
  | batch => Batch
  | seq element => List element.Value

/-- The layer whose errors a format reports; a sequence reports as its elements do. -/
def layer : Format → Layer
  | byte | word | text | raw | fixed _ | envelope => .wire
  | name | key _ => .identity
  | author | actionKind | action | batch => .author
  | seq element => element.layer

abbrev Error (f : Format) : Type :=
  f.layer.Error

def encode : (f : Format) → f.Value → Bytes
  | byte => Wire.encodeByte
  | word => Wire.encodeWord
  | text => Wire.encodeText
  | raw => Wire.encodeByteString
  | fixed _ => fun v => Wire.encodeByteString (FixedBytes.bytes v)
  | name => Name.encode
  | key _ => Key.encode
  | envelope => Envelope.encode
  | author => Author.encode
  | actionKind => ActionKind.encode
  | action => Action.encode
  | batch => Batch.encode
  | seq element => Wire.encodeSeq element.encode

/-- Writes the record of a value to a sink. -/
def write : (f : Format) → f.Value → Writer f.Error
  | byte => Wire.writeByte
  | word => Wire.writeWord
  | text => Wire.writeText
  | raw => Wire.writeByteString
  | fixed _ => fun v => Wire.writeByteString (FixedBytes.bytes v)
  | name => Name.write
  | key _ => Key.write
  | envelope => Envelope.write
  | author => Author.write
  | actionKind => ActionKind.write
  | action => Action.write
  | batch => Batch.write
  | seq element => Wire.writeSeq element.layer.ofWire element.write

/-- Reads a value from the front of a stream. -/
def decoder : (f : Format) → Decoder f.Error f.Value
  | byte => Wire.decodeByte
  | word => Wire.decodeWord
  | text => Wire.decodeText
  | raw => Wire.decodeByteString
  | fixed n => Wire.decodeFixed n
  | name => Name.decoder
  | key k => Key.decoder k
  | envelope => Envelope.decoder
  | author => Author.decoder
  | actionKind => ActionKind.decoder
  | action => Action.decoder
  | batch => Batch.decoder
  | seq element => Wire.decodeSeq element.layer.ofWire element.decoder

/-- Reads a value that has to be the whole of a byte string. -/
def decode (f : Format) : Bytes → Except f.Error f.Value :=
  f.decoder.whole fun count => f.layer.ofWire (.trailing count)

end Format

end Mandate
