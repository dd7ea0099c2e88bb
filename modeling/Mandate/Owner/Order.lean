/-
The order of owners: names come first, then public keys, then addresses, and inside each of these the
bytes decide.

Names and keys are ordered by their bytes too, in whatever owner they are.
-/
import Mandate.Owner

namespace Mandate

instance : Ord Name where
  compare a b := compare (Utf8.encode a.text) (Utf8.encode b.text)

instance {n : Nat} : Ord (FixedBytes n) where
  compare a b := compare a.bytes b.bytes

namespace Owner

instance : Ord Owner where
  compare
    | name a, name b => compare a b
    | name _, key _ _ => .lt
    | key _ _, name _ => .gt
    | key k a, key l b => (compare k l).then (compare a.bytes b.bytes)

/-- Whether `a` does not come after `b`. -/
def precedes (a b : Owner) : Bool :=
  (compare a b).isLE

/-- The indices of the owners in ascending order; equal owners keep theirs. -/
def sortedIndices (owners : List Owner) : List Nat :=
  (owners.zipIdx.mergeSort fun a b => precedes a.1 b.1).map Prod.snd

/-- The owners in ascending order, each once. -/
def distinct (owners : List Owner) : List Owner :=
  (owners.mergeSort precedes).eraseReps

end Owner
end Mandate
