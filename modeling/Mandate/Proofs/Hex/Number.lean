/-
Digits as numbers.

Two digits in front of others count as one byte in front of other bytes, so digits are worth the same
as the bytes that they spell.
-/
import Mandate.Proofs.Bytes.Number
import Mandate.Proofs.Hex.Digits
import Mathlib

namespace Mandate

/-! ## Digits -/

namespace Hex

/-- What a digit is worth: how many digits come before it when it is written in lowercase. -/
def digitValue (c : Char) : Nat :=
  "0123456789abcdef".toList.idxOf c.toLower

/-- The number that digits spell, the highest first. -/
def value (digits : List Char) : Nat :=
  Nat.ofDigits 16 (digits.map digitValue).reverse

theorem digitValue_of_isDigit {n : Nat} {c : Char} (h : IsDigit n c) : digitValue c = n := by
  have each : ∀ i : Fin 16, digitValue (Nat.digitChar i.val) = i.val ∧
      digitValue (Nat.digitChar i.val).toUpper = i.val := by decide
  obtain ⟨hn, rfl | rfl⟩ := h
  · exact (each ⟨n, hn⟩).1
  · exact (each ⟨n, hn⟩).2

theorem Spells.length_eq {bs : Bytes} {digits : List Char} (h : Spells bs digits) :
    digits.length = 2 * bs.length := by
  induction h with
  | nil => rfl
  | cons _ _ _ ih =>
    simp only [List.length_cons, ih]
    omega

theorem value_cons_cons (high low : Char) (digits : List Char) :
    value (high :: low :: digits) =
      (digitValue high * 16 + digitValue low) * 16 ^ digits.length + value digits := by
  simp only [value, List.map_cons, List.reverse_cons, Nat.ofDigits_append, Nat.ofDigits_singleton,
    List.length_append, List.length_reverse, List.length_map, List.length_singleton, Nat.pow_succ]
  ring

theorem toNat_of_spells {bs : Bytes} {digits : List Char} (h : Spells bs digits) :
    bs.toNat = value digits := by
  induction h with
  | nil => rfl
  | @cons b bs high low digits hhigh hlow hrest ih =>
    have hbyte : b.toNat / 16 * 16 + b.toNat % 16 = b.toNat := Nat.div_add_mod' _ _
    have hpow : 16 ^ digits.length = 256 ^ bs.length := by
      rw [hrest.length_eq, Nat.pow_mul]
    rw [Bytes.toNat_cons, value_cons_cons, digitValue_of_isDigit hhigh, digitValue_of_isDigit hlow,
      hbyte, hpow, ih]

/-! ## Zeros in front -/

theorem spells_zero_iff {bs : Bytes} {digits : List Char} :
    Spells bs ('0' :: '0' :: digits) ↔ ∃ cs, Spells cs digits ∧ bs = 0 :: cs := by
  constructor
  · intro h
    cases h with
    | @cons b cs _ _ _ hhigh hlow hrest =>
      have hdiv : 0 = b.toNat / 16 := digitValue_of_isDigit hhigh
      have hmod : 0 = b.toNat % 16 := digitValue_of_isDigit hlow
      have hb : b = 0 := by
        rw [← UInt8.toNat_inj]
        show b.toNat = 0
        omega
      exact ⟨cs, hrest, by rw [hb]⟩
  · rintro ⟨cs, hcs, rfl⟩
    exact .cons ⟨by decide, Or.inl rfl⟩ ⟨by decide, Or.inl rfl⟩ hcs

theorem spells_zeros_iff {n : Nat} {bs : Bytes} {digits : List Char} :
    Spells bs (List.replicate (2 * n) '0' ++ digits) ↔
      ∃ cs, Spells cs digits ∧ bs = List.replicate n 0 ++ cs := by
  induction n generalizing bs with
  | zero => simp
  | succ n ih =>
    rw [Nat.mul_succ, List.replicate_succ, List.replicate_succ, List.cons_append, List.cons_append,
      spells_zero_iff]
    simp only [ih, List.replicate_succ, List.cons_append]
    constructor
    · rintro ⟨_, ⟨cs, hcs, rfl⟩, rfl⟩
      exact ⟨cs, hcs, rfl⟩
    · rintro ⟨cs, hcs, rfl⟩
      exact ⟨_, ⟨cs, hcs, rfl⟩, rfl⟩

end Hex
end Mandate
