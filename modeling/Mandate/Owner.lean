/-
Owners: the identities that may hold authority over an account.

Inside a record an owner is a payload, the binary form of its identity, and the payload does not say
which scheme it belongs to.  So reading one takes the scheme as an argument, and has to use up the
payload to its last byte.
-/
import Mandate.Scheme

namespace Mandate

inductive Owner
  | name (n : Name)
  | key (k : KeyKind) (value : Key k)
deriving DecidableEq

namespace Owner

def scheme : Owner → Scheme
  | name _ => .account
  | key k _ => .key k

def toText : Owner → String
  | name n => n.text
  | key _ value => value.toText

def payload : Owner → Bytes
  | name n => n.encode
  | key _ value => value.encode

/-- What a payload must contain besides the identity: nothing. -/
def trailing (count : Nat) : IdentityError :=
  .wire (.trailing count)

def ofPayload (s : Scheme) (bs : Bytes) : Except AuthorError Owner :=
  Except.mapError .payload <|
    match s with
    | .account => (Name.decoder.whole trailing bs).map .name
    | .key k => ((Key.decoder k).whole trailing bs).map (.key k)

/-- Reads a text as an identity of the given scheme.  Every text is a name. -/
def parse (s : Scheme) (text : String) : Except AuthorError Owner :=
  match s with
  | .account => .ok (.name ⟨text⟩)
  | .key k => ((Key.parse k text).map (.key k)).mapError .payload

/-- The bytes that decide between two owners of one scheme. -/
def content : Owner → Bytes
  | name n => Utf8.encode n.text
  | key _ value => value.bytes

end Owner

end Mandate
