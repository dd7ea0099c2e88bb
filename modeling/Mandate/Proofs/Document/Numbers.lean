/-
Numbers in a document.

Where a document has a tag, a weight or a threshold it is read exactly or not at all.  A literal
that is accepted there is an integer without sign, fraction and exponent, and small enough; and the
number that it denotes is the one that is stored, with nothing else in the result changed.
-/
import Mandate.Proofs.Document.Rejection
import Mandate.Proofs.Document.Spelling
import Mandate.Proofs.Json.Natural
import Mandate.Proofs.Json.Place
import Mathlib

namespace Mandate

open Json

/-- A document with something in this place is accepted; with a number there instead, it is accepted
exactly if the literal denotes a natural number of less than `bound`, and then that number is put
into the result. -/
def ReadsExactly {ε α β : Type} (place : Outline → Outline) (read : String → Except ε α)
    (bound : Nat) (number : β → Nat) (put : β → α → α) : Prop :=
  ∀ o₀ (text₀ : String) a₀, (place o₀).Written text₀.toList → read text₀ = .ok a₀ →
    ∀ l (text : String), (place (.number l)).Written text.toList →
      ((∃ a, read text = .ok a) ↔ ∃ n < bound, l.Denotes n) ∧
      ∀ a, read text = .ok a ↔ ∃ b, l.Denotes (number b) ∧ a = put b a₀

theorem ReadsExactly.congr {ε ε' α β : Type} {place : Outline → Outline}
    {read : String → Except ε α} {read' : String → Except ε' α} {bound : Nat} {number : β → Nat}
    {put : β → α → α} (h : ReadsExactly place read bound number put)
    (hread : ∀ text a, read' text = .ok a ↔ read text = .ok a) :
    ReadsExactly place read' bound number put := by
  intro o₀ text₀ a₀ hwritten₀ h₀ l text hwritten
  simp only [hread] at h₀ ⊢
  exact h o₀ text₀ a₀ hwritten₀ h₀ l text hwritten

variable {place : Outline → Outline} {o₀ : Outline}

/-! ### Authors -/

namespace AuthorForm

end AuthorForm

namespace Author

end Author

/-! ### Actions -/

namespace Action

end Action

/-! ### Batches -/

namespace Batch

end Batch

/-! ### Documents -/

end Mandate
