/-
Identities: account names, public keys and addresses.

A name is any text, kept as it is; its binary form is that of the text.  A key has one text form, `0x`
and lowercase digits, and one binary form, a byte string of its exact length.  Reading the text of a
key is strict about its length but takes digits of either case, with `0x`, with `0X` or with neither
in front.
-/
import Mandate.Text.Hex
import Mandate.Wire.Sink

namespace Mandate

/-! ## The kinds of keys -/

/-- A public key, or an address derived from one.  They differ in length and in nothing else. -/
inductive KeyKind
  | publicKey
  | address
deriving DecidableEq, Ord, Repr

namespace KeyKind

/-- How many bytes a key of this kind has. -/
def length : KeyKind → Nat
  | publicKey => 65
  | address => 20

/-- What messages call a key of this kind. -/
def title : KeyKind → String
  | publicKey => "public key"
  | address => "address"

/-- The word in front of the text of a key where it is shown with its type. -/
def typeName : KeyKind → String
  | publicKey => "PubKey"
  | address => "Address"

end KeyKind

/-! ## What is no identity -/

/-- What goes wrong at the level of one identity. -/
inductive IdentityError
  /-- A text has digits that spell no bytes. -/
  | invalidHex (kind : KeyKind) (fault : Hex.Fault)
  /-- There are bytes, but not as many as a key has. -/
  | invalidLength (kind : KeyKind) (found : Nat)
  | wire (error : WireError)
deriving DecidableEq, Repr

def IdentityError.message : IdentityError → String
  | invalidHex kind fault => "invalid " ++ kind.title ++ " hex: " ++ fault.message
  | invalidLength kind found =>
    "invalid " ++ kind.title ++ " length: expected " ++ toString kind.length ++ " bytes, got " ++
      toString found
  | wire error => error.message

/-! ## Names -/

structure Name where
  text : String
deriving DecidableEq

namespace Name

def title : String := "account name"

def byteLength (n : Name) : Nat :=
  (Utf8.encode n.text).length

def encode (n : Name) : Bytes :=
  Wire.encodeText n.text

def write (n : Name) : Writer IdentityError :=
  (Wire.writeText n.text).mapError .wire

def decoder : Decoder IdentityError Name :=
  (Wire.decodeText.mapError .wire).refine fun text => .ok ⟨text⟩

end Name

/-! ## Keys -/

abbrev Key (k : KeyKind) := FixedBytes k.length

namespace Key

variable {k : KeyKind}

/-- What stands in front of the digits of a key. -/
def hexMark : String := "0x"

def ofBytes (k : KeyKind) (bs : Bytes) : Except IdentityError (Key k) :=
  match FixedBytes.ofBytes? k.length bs with
  | some key => .ok key
  | none => .error (.invalidLength k bs.length)

/-- The text without the mark in front of its digits, in either spelling of the mark. -/
def stripMark : List Char → List Char
  | '0' :: 'x' :: digits => digits
  | '0' :: 'X' :: digits => digits
  | text => text

/-- Reads the digits of a text as bytes of any number. -/
def decodeDigits (k : KeyKind) (digits : List Char) : Except IdentityError Bytes :=
  (Hex.decode (Utf8.encodeChars digits)).mapError (.invalidHex k)

def parse (k : KeyKind) (text : String) : Except IdentityError (Key k) :=
  (decodeDigits k (stripMark text.toList)).bind (ofBytes k)

def toText (key : Key k) : String :=
  hexMark ++ Hex.encode key.bytes

/-- The text of a key with the name of its type. -/
def describe (key : Key k) : String :=
  k.typeName ++ "(" ++ toText key ++ ")"

def encode (key : Key k) : Bytes :=
  Wire.encodeByteString key.bytes

def write (key : Key k) : Writer IdentityError :=
  (Wire.writeByteString key.bytes).mapError .wire

/-- Reads a byte string and then checks its length. -/
def decoder (k : KeyKind) : Decoder IdentityError (Key k) :=
  (Wire.decodeByteString.mapError .wire).refine (ofBytes k)

end Key

end Mandate
