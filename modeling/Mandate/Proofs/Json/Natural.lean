/-
Natural numbers, read exactly or not at all.

A number literal denotes a natural number if it has neither sign nor fraction nor exponent.  A
reader that asks for a natural number accepts such a literal, if the number is small enough, and no
other one: a literal that is read as a floating-point number is refused, whatever its value.
-/
import Mandate.Proofs.Decoder.Reads
import Mandate.Json.Reader
import Mathlib

namespace Mandate
namespace Json

/-- A literal that is a natural number as it stands. -/
structure NumberLiteral.Denotes (l : NumberLiteral) (n : Nat) : Prop where
  unsigned : l.negative = false
  noFraction : l.fraction = []
  noExponent : l.exponent = none
  digits : digitsValue l.whole = n

namespace NumberLiteral

/-- A natural number in decimal. -/
def ofNat (n : Nat) : NumberLiteral :=
  ⟨false, Nat.toDigits 10 n, [], none⟩

theorem denotes_ofNat (n : Nat) : (ofNat n).Denotes n where
  unsigned := rfl
  noFraction := rfl
  noExponent := rfl
  digits := by
    have hfold (ds : List Char) (m : Nat) :
        ds.foldl (fun n c => n * 10 + digitValue c) m = Nat.ofDigitChars 10 ds m := by
      induction ds generalizing m with
      | nil => rfl
      | cons c ds ih => rw [List.foldl_cons, Nat.ofDigitChars_cons, ih, Nat.mul_comm]; rfl
    show digitsValue (Nat.toDigits 10 n) = n
    rw [digitsValue, hfold, Nat.ofDigitChars_toDigits (by decide) (by decide)]

variable {l : NumberLiteral} {n : Nat}

theorem Denotes.unique {m : Nat} (hm : l.Denotes m) (hn : l.Denotes n) : m = n :=
  hm.digits.symm.trans hn.digits

theorem Denotes.value_eq (h : l.Denotes n) (hn : n < 2 ^ 64) : l.value = .ok (.integer n) := by
  have hintegral : l.isIntegral = true := by
    rw [isIntegral, h.noFraction, h.noExponent]
    rfl
  have hsign : ¬ l.negative = true := by simp [h.unsigned]
  rw [value, h.digits]
  exact if_pos ⟨hintegral, hsign, hn⟩

/-- The only other literals that are read as integers are negative, and minus zero is not. -/
theorem denotes_of_value {i : Int} (h : l.value = .ok (.integer i)) (hi : 0 ≤ i) :
    l.Denotes i.toNat := by
  rw [value] at h
  split at h
  · rename_i hcond
    obtain ⟨hintegral, hsign, _⟩ := hcond
    simp only [isIntegral, Bool.and_eq_true, List.isEmpty_iff, Option.isNone_iff_eq_none]
      at hintegral
    cases h
    exact ⟨by simpa using hsign, hintegral.1, hintegral.2, rfl⟩
  · split at h
    · rename_i hcond
      cases h
      omega
    · obtain ⟨x, _, hx⟩ := Except.map_eq_ok_iff.mp h
      cases hx

end NumberLiteral

/-! ## Readers -/

/-- `number` counts what `r` reads, and a number literal is read exactly as the number that it
denotes, if that is less than `bound`. -/
structure Reader.Counts {β : Type} (r : Reader β) (bound : Nat) (number : β → Nat) : Prop where
  outline_number : ∀ l b, r.outline (.number l) = .ok b ↔ l.Denotes (number b)
  range : ∀ n, n < bound ↔ ∃ b, number b = n

namespace Reader

theorem natural_number_iff {bound : Nat} (hbound : bound ≤ 2 ^ 64) {expected : String}
    {l : NumberLiteral} {n : Nat} :
    (natural bound expected).outline (.number l) = .ok n ↔ l.Denotes n ∧ n < bound := by
  constructor
  · intro h
    obtain ⟨found, hfound, h⟩ := Except.bind_eq_ok_iff.mp h
    rw [Except.mapError_eq_ok_iff] at hfound h
    obtain ⟨number, hvalue, rfl⟩ := Except.map_eq_ok_iff.mp hfound
    cases number with
    | real x => cases h
    | integer i =>
      simp only at h
      split at h
      · rename_i hrange
        cases h
        exact ⟨NumberLiteral.denotes_of_value hvalue hrange.1, by omega⟩
      · cases h
  · intro h
    obtain ⟨hdenotes, hn⟩ := h
    have hvalue := hdenotes.value_eq (Nat.lt_of_lt_of_le hn hbound)
    have hrange : (0 : Int) ≤ n ∧ (n : Int) < bound := by omega
    simp only [natural, scalar, Outline.found, hvalue, Except.map, Except.mapError, Except.bind,
      if_pos hrange]
    rfl

theorem natural_map_counts {β : Type} {bound : Nat} (hbound : bound ≤ 2 ^ 64) (expected : String)
    {f : Nat → β} {number : β → Nat} (hf : ∀ n < bound, number (f n) = n)
    (hnumber : ∀ b, number b < bound ∧ f (number b) = b) :
    ((natural bound expected).map f).Counts bound number where
  outline_number l b := by
    show ((natural bound expected).outline (.number l)).map f = .ok b ↔ _
    simp only [Except.map_eq_ok_iff, natural_number_iff hbound]
    constructor
    · intro h
      obtain ⟨n, ⟨hdenotes, hn⟩, rfl⟩ := h
      rwa [hf n hn]
    · intro h
      exact ⟨number b, ⟨h, (hnumber b).1⟩, (hnumber b).2⟩
  range n := by
    constructor
    · intro hn
      exact ⟨f n, hf n hn⟩
    · intro h
      obtain ⟨b, rfl⟩ := h
      exact (hnumber b).1

theorem byte_counts : byte.Counts (2 ^ 8) UInt8.toNat :=
  natural_map_counts (by decide) "u8" (fun _ => UInt8.toNat_ofNat_of_lt')
    fun b => ⟨b.toNat_lt, UInt8.ofNat_toNat⟩

theorem word_counts : word.Counts (2 ^ 64) UInt64.toNat :=
  natural_map_counts (Nat.le_refl _) "u64" (fun _ => UInt64.toNat_ofNat_of_lt')
    fun w => ⟨w.toNat_lt, UInt64.ofNat_toNat⟩

end Reader

end Json
end Mandate
