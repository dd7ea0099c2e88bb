/-
Changes to the authors of an account, one at a time.
-/
import Mandate.Author

namespace Mandate

inductive ActionKind
  | add
  | update
  | delete
deriving DecidableEq, Repr

/-- What to do with which author. -/
structure Action where
  kind : ActionKind
  author : Author
deriving DecidableEq

namespace ActionKind

/-- All kinds in the order of their tags. -/
def all : List ActionKind :=
  [add, update, delete]

def tag : ActionKind → UInt8
  | add => 0
  | update => 1
  | delete => 2

def ofTag (tag : UInt8) : Except AuthorError ActionKind :=
  match tag with
  | 0 => .ok add
  | 1 => .ok update
  | 2 => .ok delete
  | unknown => .error (.unknownAction unknown)

theorem ofTag_tag (k : ActionKind) : ofTag k.tag = .ok k := by
  cases k <;> rfl

def encode (k : ActionKind) : Bytes :=
  Wire.encodeByte k.tag

def write (k : ActionKind) : Writer AuthorError :=
  (Wire.writeByte k.tag).mapError .stream

/-- Reads a tag and then checks it. -/
def decoder : Decoder AuthorError ActionKind :=
  (Wire.decodeByte.mapError .stream).refine ofTag

end ActionKind

namespace Action

def encode (a : Action) : Bytes :=
  a.kind.encode ++ a.author.encode

def write (a : Action) : Writer AuthorError :=
  a.kind.write.andThen a.author.write

/-- Reads the kind first; the author of an action of no known kind is not looked at. -/
def decoder : Decoder AuthorError Action :=
  ActionKind.decoder.bind fun kind =>
    Author.decoder.bind fun author => .pure ⟨kind, author⟩

end Action

end Mandate
