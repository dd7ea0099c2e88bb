/-
Batches: the changes that are made to an account's authors together.

A batch also sets two thresholds.  Building one only ever appends to its list of actions.
-/
import Mandate.Action

namespace Mandate

/-- Two thresholds and a list of actions, all empty by default. -/
structure Batch where
  threshold : UInt64 := 0
  updateThreshold : UInt64 := 0
  actions : List Action := []
deriving DecidableEq

namespace Batch

def new (threshold updateThreshold : UInt64) : Batch :=
  ⟨threshold, updateThreshold, []⟩

def push (b : Batch) (a : Action) : Batch :=
  { b with actions := b.actions ++ [a] }

def add (b : Batch) (author : Author) : Batch :=
  b.push ⟨.add, author⟩

def update (b : Batch) (author : Author) : Batch :=
  b.push ⟨.update, author⟩

def delete (b : Batch) (author : Author) : Batch :=
  b.push ⟨.delete, author⟩

/-- One call on a batch under construction. -/
inductive Step
  | push (a : Action)
  | add (author : Author)
  | update (author : Author)
  | delete (author : Author)

def apply (b : Batch) : Step → Batch
  | .push a => b.push a
  | .add author => b.add author
  | .update author => b.update author
  | .delete author => b.delete author

def build (b : Batch) (steps : List Step) : Batch :=
  steps.foldl apply b

def encode (b : Batch) : Bytes :=
  Wire.encodeWord b.threshold ++ Wire.encodeWord b.updateThreshold ++
    Wire.encodeSeq Action.encode b.actions

def write (b : Batch) : Writer AuthorError :=
  ((Wire.writeWord b.threshold).mapError .stream).andThen
    (((Wire.writeWord b.updateThreshold).mapError .stream).andThen
      (Wire.writeSeq .stream Action.write b.actions))

def decoder : Decoder AuthorError Batch :=
  (Wire.decodeWord.mapError .stream).bind fun threshold =>
    (Wire.decodeWord.mapError .stream).bind fun updateThreshold =>
      (Wire.decodeSeq .stream Action.decoder).bind fun actions =>
        .pure ⟨threshold, updateThreshold, actions⟩

end Batch

end Mandate
