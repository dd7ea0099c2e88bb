/-
Batches under construction.

A call puts one action behind those that there are and changes nothing else, so a chain of calls
puts its actions behind them in the order of the calls.  In the record only the count in the middle
changes.  It may become longer, but what is in front of it and the actions behind it stay as they
are.
-/
import Mandate.Proofs.Format.Shortest
import Mathlib

namespace Mandate
namespace Batch

/-! ## Calls -/

namespace Step

def author : Step → Author
  | push a => a.author
  | add author => author
  | update author => author
  | delete author => author

/-- The action that a call puts into the batch. -/
def action : Step → Action
  | push a => a
  | add author => ⟨.add, author⟩
  | update author => ⟨.update, author⟩
  | delete author => ⟨.delete, author⟩

/-- The byte in front of the author in the record. -/
def tag : Step → UInt8
  | push a => a.kind.tag
  | add _ => 0
  | update _ => 1
  | delete _ => 2

/-- What a call puts behind the record. -/
def record (s : Step) : Bytes :=
  s.tag :: s.author.encode

theorem encode_action (s : Step) : s.action.encode = s.record := by
  cases s <;> rfl

theorem author_action (s : Step) : s.action.author = s.author := by
  cases s <;> rfl

end Step

theorem apply_eq (b : Batch) (s : Step) :
    b.apply s = ⟨b.threshold, b.updateThreshold, b.actions ++ [s.action]⟩ := by
  cases s <;> rfl

theorem build_eq (b : Batch) (steps : List Step) :
    b.build steps = ⟨b.threshold, b.updateThreshold, b.actions ++ steps.map Step.action⟩ := by
  induction steps generalizing b with
  | nil => rw [List.map_nil, List.append_nil]; rfl
  | cons s steps ih =>
    show (b.apply s).build steps = _
    rw [ih, apply_eq, List.append_assoc, List.singleton_append, List.map_cons]

/-! ## Records -/

theorem take_encode (b : Batch) :
    b.encode.take 16 = Wire.encodeWord b.threshold ++ Wire.encodeWord b.updateThreshold := by
  rw [encode, List.take_left']
  rw [List.length_append, Wire.length_encodeWord, Wire.length_encodeWord]

theorem encode_eq (b : Batch) :
    b.encode = b.encode.take 16 ++ Length.encode b.actions.length ++
      b.actions.flatMap Action.encode := by
  rw [take_encode, encode, Wire.encodeSeq, ← List.append_assoc]

theorem encode_build (b : Batch) (steps : List Step) :
    (b.build steps).encode =
      b.encode.take 16 ++ Length.encode (b.actions.length + steps.length) ++
        b.actions.flatMap Action.encode ++ steps.flatMap Step.record := by
  have hcalls : (steps.map Step.action).flatMap Action.encode = steps.flatMap Step.record := by
    simp only [List.flatMap_map, Step.encode_action]
  rw [build_eq, encode_eq, take_encode, take_encode, List.length_append, List.length_map,
    List.flatMap_append, hcalls, ← List.append_assoc]

theorem fits_build_iff (b : Batch) (steps : List Step) :
    Format.batch.Fits (b.build steps) ↔
      b.actions.length + steps.length < 2 ^ 64 ∧ (∀ a ∈ b.actions, a.author.Fits) ∧
        ∀ s ∈ steps, s.author.Fits := by
  rw [build_eq]
  show (b.actions ++ steps.map Step.action).length < 2 ^ 64 ∧
    (∀ a ∈ b.actions ++ steps.map Step.action, a.author.Fits) ↔ _
  simp only [List.length_append, List.length_map, List.forall_mem_append, List.forall_mem_map,
    Step.author_action]

/-- The record of a batch after some calls: its thresholds, the shortest form of the new number of
actions, its actions as they were, and one action for each call, in the order of the calls.  It is
read as all these actions, exactly if there are records of them. -/
theorem build_appends (b : Batch) (steps : List Step) :
    b.encode = b.encode.take 16 ++ Length.encode b.actions.length ++
      b.actions.flatMap Action.encode ∧
    (b.build steps).encode =
      b.encode.take 16 ++ Length.encode (b.actions.length + steps.length) ++
        b.actions.flatMap Action.encode ++ steps.flatMap Step.record ∧
    (∀ form, Length.Digits (b.actions.length + steps.length) form →
      (Length.encode (b.actions.length + steps.length)).length ≤ form.length) ∧
    (Format.batch.decode (b.build steps).encode =
        .ok (⟨b.threshold, b.updateThreshold, b.actions ++ steps.map Step.action⟩ : Batch) ↔
      b.actions.length + steps.length < 2 ^ 64 ∧ (∀ a ∈ b.actions, a.author.Fits) ∧
        ∀ s ∈ steps, s.author.Fits) := by
  refine ⟨encode_eq b, encode_build b steps, fun form h => h.shortest.1, ?_⟩
  rw [← fits_build_iff, ← build_eq]
  exact Format.batch.decode_encode_iff

end Batch
end Mandate
