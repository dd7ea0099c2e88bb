/-
The schemes by which an owner can be identified, and why authors, actions and batches cannot be read.

A scheme has a tag, which records carry, and a name, which people type.  An error of a lower layer
keeps its cause and gains one sentence in front of its message.
-/
import Mandate.Identity
import Mandate.Json.Error

namespace Mandate

/-- What goes wrong at the level of authors and their actions. -/
inductive AuthorError
  | unknownScheme (tag : UInt8)
  | unknownSchemeName (name : String)
  | unknownAction (tag : UInt8)
  /-- What identifies the owner is no identity of its scheme. -/
  | payload (error : IdentityError)
  /-- The bytes around the owner cannot be read or written. -/
  | stream (error : WireError)
  | json (error : Json.Error)

def AuthorError.message : AuthorError → String
  | unknownScheme tag => "unknown author type tag: " ++ toString tag.toNat
  | unknownSchemeName name => "unknown author type name: " ++ Quoted.text name
  | unknownAction tag => "unknown author action type: " ++ toString tag.toNat
  | payload error => "malformed owner payload: " ++ error.message
  | stream error => "author stream failure: " ++ error.message
  | json error => "author JSON failure: " ++ error.message

/-- An account name, or a key of one of the two kinds. -/
inductive Scheme
  | account
  | key (k : KeyKind)
deriving DecidableEq, Repr

namespace Scheme

/-- All schemes in the order of their tags. -/
def all : List Scheme :=
  [account, key .publicKey, key .address]

def tag : Scheme → UInt8
  | account => 0
  | key .publicKey => 1
  | key .address => 2

def name : Scheme → String
  | account => "account"
  | key .publicKey => "pubKey"
  | key .address => "address"

def ofTag (tag : UInt8) : Except AuthorError Scheme :=
  match tag with
  | 0 => .ok account
  | 1 => .ok (key .publicKey)
  | 2 => .ok (key .address)
  | unknown => .error (.unknownScheme unknown)

/-- The scheme of exactly this name. -/
def ofName (name : String) : Except AuthorError Scheme :=
  match all.find? fun s => s.name == name with
  | some s => .ok s
  | none => .error (.unknownSchemeName name)

theorem ofTag_tag (s : Scheme) : ofTag s.tag = .ok s := by
  match s with
  | account => rfl
  | key .publicKey => rfl
  | key .address => rfl

end Scheme

end Mandate
