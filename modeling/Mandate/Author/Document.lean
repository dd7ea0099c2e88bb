/-
Authors in JSON, and what they are made of: a name or a key is a string, its text form, and a scheme
is its tag.

The shape of an author is a tag, the text of its owner and a weight.  Whether the tag is known and
the text fits it is a second question, asked when the whole shape has been read.
-/
import Mandate.Author
import Mandate.Json.Printer
import Mandate.Json.Record

namespace Mandate

open Json

/-! ## Identities and schemes -/

def Name.toJson (n : Name) : List Char :=
  Printer.string n.text

def Name.reader : Reader Name :=
  Reader.text.map fun text => ⟨text⟩

def Key.toJson {k : KeyKind} (key : Key k) : List Char :=
  Printer.string key.toText

def Key.reader (k : KeyKind) : Reader (Key k) :=
  Reader.text.refine fun text => (Key.parse k text).mapError IdentityError.message

def Scheme.toJson (s : Scheme) : List Char :=
  Printer.natural s.tag.toNat

def Scheme.reader : Reader Scheme :=
  Reader.byte.refine fun tag => (Scheme.ofTag tag).mapError AuthorError.message

/-! ## Authors -/

/-- What a JSON author says, before anybody has checked it. -/
structure AuthorForm where
  tag : UInt8
  owner : String
  weight : UInt64
deriving DecidableEq

namespace AuthorForm

def toJson (f : AuthorForm) : List Char :=
  Printer.object [("type", Printer.natural f.tag.toNat), ("owner", Printer.string f.owner),
    ("weight", Printer.natural f.weight.toNat)]

/-- The members of a form that have been read. -/
structure Draft where
  tag : Option UInt8 := none
  owner : Option String := none
  weight : Option UInt64 := none

/-- The form of a complete draft; of several missing members the first is named. -/
def Draft.finish (d : Draft) : Except Complaint AuthorForm :=
  match d.tag, d.owner, d.weight with
  | none, _, _ => .error (.missingField "type")
  | some _, none, _ => .error (.missingField "owner")
  | some _, some _, none => .error (.missingField "weight")
  | some tag, some owner, some weight => .ok ⟨tag, owner, weight⟩

def record : Record Draft AuthorForm where
  expected := "struct AuthorJson"
  positional := some "struct AuthorJson with 3 elements"
  fields := [
    ⟨"type", fun d => d.tag.isSome, Reader.byte.map fun tag d => { d with tag := some tag }⟩,
    ⟨"owner", fun d => d.owner.isSome,
      Reader.text.map fun owner d => { d with owner := some owner }⟩,
    ⟨"weight", fun d => d.weight.isSome,
      Reader.word.map fun weight d => { d with weight := some weight }⟩]
  start := {}
  finish := Draft.finish

def reader : Reader AuthorForm :=
  record.reader

end AuthorForm

namespace Author

def toForm (a : Author) : AuthorForm :=
  ⟨a.scheme.tag, a.owner.toText, a.weight⟩

/-- Checks a form: first its tag, then the text of its owner. -/
def ofForm (f : AuthorForm) : Except AuthorError Author :=
  (Scheme.ofTag f.tag).bind fun s => (Owner.parse s f.owner).map fun owner => ⟨owner, f.weight⟩

def toJson (a : Author) : List Char :=
  a.toForm.toJson

/-- Reads a form and checks it on the spot, wherever in a document it stands. -/
def reader : Reader Author :=
  AuthorForm.reader.refine fun f => (ofForm f).mapError AuthorError.message

def toDocument (a : Author) : String :=
  String.ofList a.toJson

/-- Reads a document that is one author.  The whole document is read as a form before the form is
checked, so a form that is refused is not a defect of the document. -/
def ofDocument (text : String) : Except AuthorError Author :=
  ((AuthorForm.reader.read text).mapError .json).bind ofForm

end Author

end Mandate
