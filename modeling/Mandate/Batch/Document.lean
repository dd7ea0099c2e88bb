/-
Actions and batches in JSON.

A kind of action is its tag, and a batch is always an object.  A threshold of zero and an empty list
of actions are left out, and what is left out is read as zero or empty.
-/
import Mandate.Batch
import Mandate.Author.Document

namespace Mandate

open Json

namespace ActionKind

def toJson (k : ActionKind) : List Char :=
  Printer.natural k.tag.toNat

def reader : Reader ActionKind :=
  Reader.byte.refine fun tag => (ofTag tag).mapError AuthorError.message

end ActionKind

namespace Action

def toJson (a : Action) : List Char :=
  Printer.object [("ActionType", a.kind.toJson), ("Author", a.author.toJson)]

structure Draft where
  kind : Option ActionKind := none
  author : Option Author := none

def Draft.finish (d : Draft) : Except Complaint Action :=
  match d.kind, d.author with
  | none, _ => .error (.missingField "ActionType")
  | some _, none => .error (.missingField "Author")
  | some kind, some author => .ok ⟨kind, author⟩

def record : Record Draft Action where
  expected := "struct AuthorAction"
  positional := some "struct AuthorAction with 2 elements"
  fields := [
    ⟨"ActionType", fun d => d.kind.isSome,
      ActionKind.reader.map fun kind d => { d with kind := some kind }⟩,
    ⟨"Author", fun d => d.author.isSome,
      Author.reader.map fun author d => { d with author := some author }⟩]
  start := {}
  finish := Draft.finish

def reader : Reader Action :=
  record.reader

end Action

namespace Batch

def toJson (b : Batch) : List Char :=
  Printer.object <|
    (if b.threshold = 0 then [] else [("threshold", Printer.natural b.threshold.toNat)]) ++
    (if b.updateThreshold = 0 then []
      else [("updateAuthorThreshold", Printer.natural b.updateThreshold.toNat)]) ++
    (if b.actions.isEmpty then []
      else [("authorActions", Printer.array (b.actions.map Action.toJson))])

structure Draft where
  threshold : Option UInt64 := none
  updateThreshold : Option UInt64 := none
  actions : Option (List Action) := none

def Draft.finish (d : Draft) : Except Complaint Batch :=
  .ok ⟨d.threshold.getD 0, d.updateThreshold.getD 0, d.actions.getD []⟩

def record : Record Draft Batch where
  expected := "an account author action object"
  positional := none
  fields := [
    ⟨"threshold", fun d => d.threshold.isSome,
      Reader.word.map fun n d => { d with threshold := some n }⟩,
    ⟨"updateAuthorThreshold", fun d => d.updateThreshold.isSome,
      Reader.word.map fun n d => { d with updateThreshold := some n }⟩,
    ⟨"authorActions", fun d => d.actions.isSome,
      (Reader.list Action.reader).map fun actions d => { d with actions := some actions }⟩]
  start := {}
  finish := Draft.finish

def reader : Reader Batch :=
  record.reader

def toDocument (b : Batch) : String :=
  String.ofList b.toJson

def ofDocument (text : String) : Except AuthorError Batch :=
  (reader.read text).mapError .json

end Batch

end Mandate
