/-
One place in a document, with everything around it fixed.

`place` takes what stands there to the outline of the whole.  Where a reader comes to that place by
its inner reader, the whole is read exactly if the inner reader reads what stands there, and what is
read is put into a result that is otherwise always the same (`Reader.HasPlace`).  So what one
accepted document says about the rest, it says for all that could stand in that place.
-/
import Mandate.Proofs.Json.Reached

namespace Mandate
namespace Json

theorem Items.ofList_append (os os' : List Outline) :
    ofList (os ++ os') = prepend os (ofList os') := by
  induction os with
  | nil => rfl
  | cons o os ih => rw [List.cons_append, ofList, prepend, ih]

/-! ## Readers -/

namespace Reader

variable {α β γ : Type}

/-- Reading by `r` with something in this place is reading that by `inner` and then `put`. -/
def HasPlace (r : Reader α) (inner : Reader β) (place : Outline → Outline) (put : β → α) : Prop :=
  ∀ o a, r.outline (place o) = .ok a ↔ ∃ b, inner.outline o = .ok b ∧ a = put b

theorem HasPlace.trans {r : Reader α} {mid : Reader β} {inner : Reader γ}
    {place place' : Outline → Outline} {put : β → α} {put' : γ → β}
    (h : r.HasPlace mid place put) (h' : mid.HasPlace inner place' put') :
    r.HasPlace inner (place ∘ place') (put ∘ put') := by
  intro o a
  rw [Function.comp_apply, h]
  constructor
  · intro ha
    obtain ⟨b, hb, rfl⟩ := ha
    obtain ⟨c, hc, rfl⟩ := (h' o b).mp hb
    exact ⟨c, hc, rfl⟩
  · intro ha
    obtain ⟨c, hc, rfl⟩ := ha
    exact ⟨put' c, (h' o _).mpr ⟨c, hc, rfl⟩, rfl⟩

theorem HasPlace.refine {r : Reader α} {inner : Reader β} {place : Outline → Outline}
    {put : β → α} {put' : β → γ} {f : α → Except String γ} (h : r.HasPlace inner place put)
    (hf : ∀ b, f (put b) = .ok (put' b)) : (r.refine f).HasPlace inner place put' := by
  intro o c
  show (r.outline (place o)).bind _ = .ok c ↔ _
  simp only [Except.bind_eq_ok_iff, Except.mapError_eq_ok_iff, h o]
  constructor
  · intro hc
    obtain ⟨_, ⟨b, hb, rfl⟩, hc⟩ := hc
    exact ⟨b, hb, Except.ok.inj (hc.symm.trans (hf b))⟩
  · intro hc
    obtain ⟨b, hb, rfl⟩ := hc
    exact ⟨put b, ⟨b, hb, rfl⟩, hf b⟩

end Reader

/-! ## Records -/

namespace Record

variable {σ α β : Type} {r : Record σ α} {n : String} {f : Field σ}

end Record

end Json
end Mandate
