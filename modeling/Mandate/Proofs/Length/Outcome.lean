/-
What reading a length comes to, on every input.

A number ends at the first byte without its high bit.  If there is such a byte, the reader stops right
after it, whatever the number is, and if there is none, the input has been cut off.  Of the numbers
that end, those of at most ten bytes that fit in 64 bits are read as exactly the sum of their digits.
All others are refused, a padded small number of eleven bytes like a large one, so no result is ever
reduced to what fits.

`Digits n form` is the invariant of the reader's loop.  Each lemma about a loop is an induction on it,
or on an input in which no number ends.
-/
import Mandate.Proofs.Length.Forms
import Mathlib

namespace Mandate
namespace Length

/-! ## The sum of the digits -/

/-- What the low seven bits of the bytes are worth together, the lowest digit first. -/
def digitSum (bs : Bytes) : Nat :=
  ∑ i : Fin bs.length, bs[i].toNat % 128 * 128 ^ (i : Nat)

theorem digitSum_cons (b : UInt8) (bs : Bytes) :
    digitSum (b :: bs) = b.toNat % 128 + 128 * digitSum bs := by
  have first : digitSum (b :: bs) =
      b.toNat % 128 * 128 ^ 0 + ∑ i : Fin bs.length, bs[i].toNat % 128 * 128 ^ ((i : Nat) + 1) :=
    Fin.sum_univ_succ _
  rw [first, digitSum, Finset.mul_sum, Nat.pow_zero, Nat.mul_one]
  congr 1
  refine Finset.sum_congr rfl fun i _ => ?_
  rw [Nat.pow_succ, ← Nat.mul_assoc, Nat.mul_comm 128]

/-- The bytes up to the first one without its high bit are the digits of a number. -/
theorem digits_take {bs : Bytes} {k : Nat} (h : bs.findIdx? (· < 128) = some k) :
    Digits (digitSum (bs.take (k + 1))) (bs.take (k + 1)) := by
  induction bs generalizing k with
  | nil => simp at h
  | cons b bs ih =>
    rw [List.findIdx?_cons] at h
    rw [List.take_succ_cons, digitSum_cons]
    by_cases hb : b < 128
    · have hk : 0 = k := by simpa [hb] using h
      subst hk
      have hsum : b.toNat % 128 + 128 * digitSum [] = b.toNat :=
        Nat.mod_eq_of_lt (UInt8.lt_iff_toNat_lt.mp hb)
      rw [List.take_zero, hsum]
      exact .last hb
    · obtain ⟨j, hj, rfl⟩ : ∃ j, bs.findIdx? (· < 128) = some j ∧ j + 1 = k := by
        simpa [hb] using h
      exact .more (UInt8.not_lt.mp hb) (ih hj)

theorem not_last_of_findIdx? {bs : Bytes} (h : bs.findIdx? (· < 128) = none) :
    ∀ b ∈ bs, ¬ b < 128 := by
  simpa [List.findIdx?_eq_none_iff] using h

/-! ## Numbers that do not end -/

theorem skipOverlong_unended {bs : Bytes} (h : ∀ b ∈ bs, ¬ b < 128) :
    skipOverlong bs = (.error .lengthCutOff, []) := by
  induction bs with
  | nil => rfl
  | cons b bs ih =>
    obtain ⟨hb, hbs⟩ := List.forall_mem_cons.mp h
    rw [skipOverlong, if_neg hb, ih hbs]

theorem continueFrom_unended {bs : Bytes} (h : ∀ b ∈ bs, ¬ b < 128) (index value : Nat) :
    continueFrom index value bs = (.error .lengthCutOff, []) := by
  induction bs generalizing index value with
  | nil => rfl
  | cons b bs ih =>
    obtain ⟨hb, hbs⟩ := List.forall_mem_cons.mp h
    rw [continueFrom]
    by_cases hov : index = 9 ∧ 1 < b
    · rw [if_pos hov, skipOverlong_unended h]
    · simp only [if_neg hov, if_neg hb]
      exact ih hbs _ _

/-! ## Numbers that end -/

theorem skipOverlong_digits {n : Nat} {form : Bytes} (h : Digits n form) (rest : Bytes) :
    skipOverlong (form ++ rest) = (.error .lengthOverflow, rest) := by
  induction h with
  | last hb => rw [List.singleton_append, skipOverlong, if_pos hb]
  | more hb _ ih => rw [List.cons_append, skipOverlong, if_neg (UInt8.not_lt.mpr hb), ih]

/-- Digits that are no form are refused at the tenth byte.  The loop that passes over the rest of
them stops at the same byte as the loop that reads. -/
theorem continueFrom_digits {index n : Nat} {form : Bytes} (hi : index ≤ 9)
    (hd : Digits n form) (h : ¬ FormFrom index n form) (value : Nat) (rest : Bytes) :
    continueFrom index value (form ++ rest) = (.error .lengthOverflow, rest) := by
  induction hd generalizing index value with
  | @last b hb =>
    rcases Nat.lt_or_eq_of_le hi with h9 | rfl
    -- With room behind it, a last byte would make the digits a form.
    · exact absurd ((formFrom_cons_iff h9).mpr (Or.inl ⟨hb, rfl, rfl⟩)) h
    · have hover : 1 < b := by
        by_contra hle
        exact h (formFrom_nine_iff.mpr ⟨hle, rfl, rfl⟩)
      rw [List.singleton_append, continueFrom_nine, if_pos hover, skipOverlong, if_pos hb]
  | @more b n bs hb hd ih =>
    rw [List.cons_append]
    rcases Nat.lt_or_eq_of_le hi with h9 | rfl
    · rw [continueFrom_cons h9, if_neg (UInt8.not_lt.mpr hb)]
      exact ih h9 (fun hf => h ((formFrom_cons_iff h9).mpr (Or.inr ⟨hb, n, rfl, hf⟩))) _
    · have hover : 1 < b := UInt8.lt_of_lt_of_le (by decide) hb
      rw [continueFrom_nine, if_pos hover]
      exact skipOverlong_digits (.more hb hd) rest

theorem decode_digits {n : Nat} {form : Bytes} (h : Digits n form) (rest : Bytes) :
    decode (form ++ rest) =
      (if form.length ≤ 10 ∧ n < 2 ^ 64 then .ok n else .error .lengthOverflow, rest) := by
  by_cases hf : Form n form
  · rw [if_pos (h.form_iff.mp hf)]
    exact decode_eq_ok_iff.mpr ⟨form, hf, rfl⟩
  · rw [if_neg (h.form_iff.not.mp hf)]
    exact continueFrom_digits (Nat.zero_le 9) h hf 0 rest

theorem eq_of_decode_error {bs rest : Bytes} {e : WireError} (h : decode bs = (.error e, rest)) :
    e = .lengthCutOff ∨ e = .lengthOverflow := by
  cases hk : bs.findIdx? (· < 128) with
  | none =>
    rw [decode, continueFrom_unended (not_last_of_findIdx? hk)] at h
    cases h
    exact Or.inl rfl
  | some k =>
    rw [← bs.take_append_drop (k + 1), decode_digits (digits_take hk)] at h
    split at h
    · cases h
    · cases h
      exact Or.inr rfl

/-! ## The length of the shortest form -/

theorem isLeast_length_encode (n : Nat) :
    IsLeast {k | 1 ≤ k ∧ n < 128 ^ k} (encode n).length := by
  have hpos := length_encode_pos n
  constructor
  · obtain ⟨j, hj⟩ := Nat.exists_eq_succ_of_ne_zero (Nat.ne_of_gt hpos)
    refine ⟨hpos, ?_⟩
    rw [hj]
    exact length_encode_le_iff.mp (Nat.le_of_eq hj)
  · intro k hk
    obtain ⟨hone, hlt⟩ := hk
    obtain ⟨j, rfl⟩ := Nat.exists_eq_add_of_le' hone
    exact length_encode_le_iff.mpr hlt

/-- Reading a length on every input, by the place of the first byte without its high bit.  What is
written for a number is read back, it is shorter than everything else that is read as this number,
and it has as many bytes as the number has digits. -/
theorem decode_eq_digitSum :
    (∀ bs : Bytes, decode bs =
      match bs.findIdx? (· < 128) with
      | none => (.error .lengthCutOff, [])
      | some k =>
        (if k ≤ 9 ∧ digitSum (bs.take (k + 1)) < 2 ^ 64 then .ok (digitSum (bs.take (k + 1)))
          else .error .lengthOverflow,
          bs.drop (k + 1))) ∧
    ∀ n : UInt64,
      decode (encode n.toNat) = (.ok n.toNat, []) ∧
      (∀ bs rest, decode bs = (.ok n.toNat, rest) →
        (encode n.toNat).length ≤ bs.length ∧
          ((encode n.toNat).length = bs.length → encode n.toNat = bs)) ∧
      IsLeast {k | 1 ≤ k ∧ n.toNat < 128 ^ k} (encode n.toNat).length ∧
      (encode n.toNat).length ≤ 10 := by
  refine ⟨fun bs => ?_, fun n => ⟨?_, fun bs rest h => ?_, isLeast_length_encode _, ?_⟩⟩
  · cases h : bs.findIdx? (· < 128) with
    | none => exact continueFrom_unended (not_last_of_findIdx? h) 0 0
    | some k =>
      have hk : k < bs.length := (List.findIdx?_eq_some_iff_getElem.mp h).1
      have hlen : (bs.take (k + 1)).length = k + 1 := List.length_take_of_le hk
      have hten : k + 1 ≤ 10 ↔ k ≤ 9 := by omega
      have hread := decode_digits (digits_take h) (bs.drop (k + 1))
      rw [List.take_append_drop, hlen] at hread
      simpa only [hten] using hread
  · simpa using decode_encode [] n.toNat_lt
  · obtain ⟨form, hform, rfl⟩ := decode_eq_ok_iff.mp h
    obtain ⟨hle, heq⟩ := hform.digits.shortest
    rw [List.length_append]
    refine ⟨by omega, fun hlen => ?_⟩
    have hrest : rest = [] := List.eq_nil_of_length_eq_zero (by omega)
    rw [hrest, List.append_nil]
    exact heq (by omega)
  · refine length_encode_le_iff.mpr (Nat.lt_trans n.toNat_lt ?_)
    decide

/-- One in eleven bytes, which is too long, and in two, which is longer than what is written. -/
theorem decode_eq_digitSum_padded :
    decode [0x81, 0x80, 0x80, 0x80, 0x80, 0x80, 0x80, 0x80, 0x80, 0x80, 0, 7] =
        (.error .lengthOverflow, [7]) ∧
      decode [0x81, 0, 7] = (.ok 1, [7]) ∧
      (encode 1).length ≤ 3 := by
  have overlong := decode_eq_digitSum.1
    [0x81, 0x80, 0x80, 0x80, 0x80, 0x80, 0x80, 0x80, 0x80, 0x80, 0, 7]
  have padded : decode [0x81, 0, 7] = (.ok 1, [7]) := by cbv
  obtain ⟨-, shortest, -⟩ := decode_eq_digitSum.2 1
  exact ⟨overlong, padded, (shortest _ _ padded).1⟩

end Length
end Mandate
