/-
The forms in which a length may be written, and the shortest of them.

`Form n bs` says that `bs` is a base-128 form of `n`, minimal or padded with zeros, of one to ten
bytes.  It does not mention the reader.  `decode_eq_ok_iff` is what the reader makes of it: exactly
the forms are read, whatever follows them.  The form that `encode` writes is shorter than all the
others, and a smaller number never needs a longer one.
-/
import Mandate.Wire.Length
import Mathlib

namespace Mandate
namespace Length

/-- Base-128 digits of a number, the lowest first.  Every byte but the last has its high bit set,
and the high digits may be zeros. -/
inductive Digits : Nat → Bytes → Prop
  | last {b : UInt8} : b < 128 → Digits b.toNat [b]
  | more {b : UInt8} {n : Nat} {bs : Bytes} :
      128 ≤ b → Digits n bs → Digits (b.toNat % 128 + 128 * n) (b :: bs)

/-- Digits that go on a number of which `index` bytes have been read.  There are ten in all at
most, and the tenth, where there is one, is 0 or 1. -/
structure FormFrom (index n : Nat) (bs : Bytes) : Prop where
  digits : Digits n bs
  length_le : index + bs.length ≤ 10
  tenth : ∀ b, bs[9 - index]? = some b → b = 0 ∨ b = 1

/-- The forms of a length or count. -/
abbrev Form (n : Nat) (bs : Bytes) : Prop :=
  FormFrom 0 n bs

theorem Digits.length_pos {n : Nat} {bs : Bytes} (h : Digits n bs) : 0 < bs.length := by
  cases h <;> simp

theorem formFrom_cons_iff {index n : Nat} {b : UInt8} {bs : Bytes} (hi : index < 9) :
    FormFrom index n (b :: bs) ↔
      (b < 128 ∧ n = b.toNat ∧ bs = []) ∨
        (128 ≤ b ∧ ∃ m, n = b.toNat % 128 + 128 * m ∧ FormFrom (index + 1) m bs) := by
  have hat : 9 - index = 9 - (index + 1) + 1 := by omega
  constructor
  · intro h
    obtain ⟨hd, hl, ht⟩ := h
    cases hd with
    | last hb => exact Or.inl ⟨hb, rfl, rfl⟩
    | more hb hd =>
      refine Or.inr ⟨hb, _, rfl, hd, ?_, fun c hc => ?_⟩
      · simp only [List.length_cons] at hl
        omega
      · exact ht c (by rw [hat, List.getElem?_cons_succ]; exact hc)
  · intro h
    rcases h with ⟨hb, rfl, rfl⟩ | ⟨hb, m, rfl, hd, hl, ht⟩
    · refine ⟨.last hb, by simp only [List.length_singleton]; omega, fun c hc => ?_⟩
      rw [hat, List.getElem?_cons_succ] at hc
      simp at hc
    · refine ⟨.more hb hd, by simp only [List.length_cons]; omega, fun c hc => ?_⟩
      rw [hat, List.getElem?_cons_succ] at hc
      exact ht c hc

theorem formFrom_nine_iff {n : Nat} {b : UInt8} {bs : Bytes} :
    FormFrom 9 n (b :: bs) ↔ ¬ 1 < b ∧ n = b.toNat ∧ bs = [] := by
  constructor
  · intro h
    obtain ⟨hd, hl, ht⟩ := h
    have hb : ¬ 1 < b := by
      rcases ht b rfl with rfl | rfl <;> decide
    cases hd with
    | last _ => exact ⟨hb, rfl, rfl⟩
    | more _ hd =>
      have := hd.length_pos
      simp only [List.length_cons] at hl
      omega
  · intro h
    obtain ⟨hb, rfl, rfl⟩ := h
    have hle : b.toNat ≤ 1 := UInt8.le_iff_toNat_le.mp (UInt8.not_lt.mp hb)
    refine ⟨.last (UInt8.lt_iff_toNat_lt.mpr ?_), by simp, fun c hc => ?_⟩
    · exact Nat.lt_of_le_of_lt hle (by decide)
    · have hcb : b = c := by simpa using hc
      subst hcb
      rw [← UInt8.toNat_inj, ← UInt8.toNat_inj]
      show b.toNat = 0 ∨ b.toNat = 1
      omega

/-! ## The reader reads exactly the forms -/

theorem skipOverlong_ne_ok (bs rest : Bytes) (n : Nat) : skipOverlong bs ≠ (.ok n, rest) := by
  induction bs with
  | nil => simp [skipOverlong]
  | cons b bs ih =>
    rw [skipOverlong]
    split
    · simp
    · exact ih

/-- Every byte is seven bits further up than the one before. -/
theorem shiftLeft_index (n index : Nat) : n <<< (7 * index) = n * 128 ^ index := by
  rw [Nat.shiftLeft_eq, Nat.pow_mul]

theorem digit_add (b : UInt8) (value m index : Nat) :
    value + b.toNat % 128 * 128 ^ index + m * 128 ^ (index + 1) =
      value + (b.toNat % 128 + 128 * m) * 128 ^ index := by
  have hpow : 128 ^ (index + 1) = 128 * 128 ^ index := Nat.pow_succ'
  rw [hpow, Nat.add_mul, Nat.add_assoc, ← Nat.mul_assoc m, Nat.mul_comm m]

theorem continueFrom_cons {index value : Nat} {b : UInt8} {bs : Bytes} (hi : index < 9) :
    continueFrom index value (b :: bs) =
      if b < 128 then (.ok (value + b.toNat * 128 ^ index), bs)
      else continueFrom (index + 1) (value + b.toNat % 128 * 128 ^ index) bs := by
  have hov : ¬ (index = 9 ∧ 1 < b) := by omega
  rw [continueFrom, if_neg hov, shiftLeft_index]
  by_cases hb : b < 128
  · have hlt : b.toNat < 128 := UInt8.lt_iff_toNat_lt.mp hb
    simp only [if_pos hb, Nat.mod_eq_of_lt hlt]
  · simp only [if_neg hb]

theorem continueFrom_nine {value : Nat} {b : UInt8} {bs : Bytes} :
    continueFrom 9 value (b :: bs) =
      if 1 < b then skipOverlong (b :: bs) else (.ok (value + b.toNat * 128 ^ 9), bs) := by
  rw [continueFrom, shiftLeft_index]
  by_cases hb : 1 < b
  · simp only [hb, and_self, if_true]
  · have hle : b.toNat ≤ 1 := UInt8.le_iff_toNat_le.mp (UInt8.not_lt.mp hb)
    have hlt : b < 128 := UInt8.lt_iff_toNat_lt.mpr (Nat.lt_of_le_of_lt hle (by decide))
    have hmod : b.toNat % 128 = b.toNat := Nat.mod_eq_of_lt (by omega)
    simp only [hb, and_false, if_false, if_pos hlt, hmod]

theorem continueFrom_append {index n : Nat} {form : Bytes} (hi : index ≤ 9)
    (h : FormFrom index n form) (value : Nat) (rest : Bytes) :
    continueFrom index value (form ++ rest) = (.ok (value + n * 128 ^ index), rest) := by
  -- The induction is on the form, one byte of which is one step of the reader.
  induction form generalizing index n value with
  | nil => exact absurd h.digits.length_pos (by simp)
  | cons b form ih =>
    rw [List.cons_append]
    rcases Nat.lt_or_eq_of_le hi with hlt | rfl
    · rw [continueFrom_cons hlt]
      rcases (formFrom_cons_iff hlt).mp h with ⟨hb, rfl, rfl⟩ | ⟨hb, m, rfl, hm⟩
      · rw [if_pos hb, List.nil_append]
      · rw [if_neg (UInt8.not_lt.mpr hb), ih hlt hm, digit_add]
    · obtain ⟨hb, rfl, rfl⟩ := formFrom_nine_iff.mp h
      rw [continueFrom_nine, if_neg hb, List.nil_append]

theorem form_of_continueFrom {index value m : Nat} {bs rest : Bytes} (hi : index ≤ 9)
    (h : continueFrom index value bs = (.ok m, rest)) :
    ∃ n form, FormFrom index n form ∧ bs = form ++ rest ∧ m = value + n * 128 ^ index := by
  -- Here the form is what has to be found, so the induction is on the input.
  induction bs generalizing index value with
  | nil => simp [continueFrom] at h
  | cons b bs ih =>
    rcases Nat.lt_or_eq_of_le hi with hlt | rfl
    · rw [continueFrom_cons hlt] at h
      by_cases hb : b < 128
      · rw [if_pos hb] at h
        cases h
        exact ⟨_, [b], (formFrom_cons_iff hlt).mpr (Or.inl ⟨hb, rfl, rfl⟩), rfl, rfl⟩
      · rw [if_neg hb] at h
        obtain ⟨n, form, hf, rfl, rfl⟩ := ih hlt h
        refine ⟨b.toNat % 128 + 128 * n, b :: form, ?_, rfl, digit_add b value n index⟩
        exact (formFrom_cons_iff hlt).mpr (Or.inr ⟨UInt8.not_lt.mp hb, n, rfl, hf⟩)
    · rw [continueFrom_nine] at h
      by_cases hb : 1 < b
      · rw [if_pos hb] at h
        exact absurd h (skipOverlong_ne_ok _ _ _)
      · rw [if_neg hb] at h
        cases h
        exact ⟨_, [b], formFrom_nine_iff.mpr ⟨hb, rfl, rfl⟩, rfl, rfl⟩

theorem decode_eq_ok_iff {bs rest : Bytes} {n : Nat} :
    decode bs = (.ok n, rest) ↔ ∃ form, Form n form ∧ bs = form ++ rest := by
  constructor
  · intro h
    obtain ⟨m, form, hf, hbs, hn⟩ := form_of_continueFrom (Nat.zero_le 9) h
    have : n = m := by simpa using hn
    exact ⟨form, this ▸ hf, hbs⟩
  · intro h
    obtain ⟨form, hf, rfl⟩ := h
    rw [decode, continueFrom_append (Nat.zero_le 9) hf]
    simp

/-- Each byte takes seven of the 64 bits. -/
theorem room_succ {index : Nat} (h : index < 9) :
    2 ^ (64 - 7 * index) = 128 * 2 ^ (64 - 7 * (index + 1)) := by
  rw [show 64 - 7 * index = 7 + (64 - 7 * (index + 1)) by omega, Nat.pow_add]

/-- Ten digits, of which the tenth is one bit, are no more than 64 bits. -/
theorem FormFrom.lt {index n : Nat} {bs : Bytes} (hi : index ≤ 9) (h : FormFrom index n bs) :
    n < 2 ^ (64 - 7 * index) := by
  induction bs generalizing index n with
  | nil => exact absurd h.digits.length_pos (by simp)
  | cons b bs ih =>
    rcases Nat.lt_or_eq_of_le hi with hlt | rfl
    · have hroom := room_succ hlt
      rcases (formFrom_cons_iff hlt).mp h with ⟨hb, rfl, rfl⟩ | ⟨_, m, rfl, hm⟩
      · have hsmall : b.toNat < 128 := UInt8.lt_iff_toNat_lt.mp hb
        have := Nat.two_pow_pos (64 - 7 * (index + 1))
        omega
      · have hlow : m < 2 ^ (64 - 7 * (index + 1)) := ih hlt hm
        omega
    · obtain ⟨hb, rfl, rfl⟩ := formFrom_nine_iff.mp h
      have hle : b.toNat ≤ 1 := UInt8.le_iff_toNat_le.mp (UInt8.not_lt.mp hb)
      omega

/-- Digits are a form if there is room for them.  The tenth byte is the last one then, and of its
values only 0 and 1 keep the number below the bound. -/
theorem Digits.formFrom {index n : Nat} {bs : Bytes} (hi : index ≤ 9) (h : Digits n bs)
    (hlen : index + bs.length ≤ 10) (hlt : n < 2 ^ (64 - 7 * index)) : FormFrom index n bs := by
  induction h generalizing index with
  | @last b hb =>
    rcases Nat.lt_or_eq_of_le hi with h9 | rfl
    · exact (formFrom_cons_iff h9).mpr (Or.inl ⟨hb, rfl, rfl⟩)
    · have hle : ¬ 1 < b := by
        rw [UInt8.lt_iff_toNat_lt]
        exact Nat.not_lt.mpr (Nat.le_of_lt_succ hlt)
      exact formFrom_nine_iff.mpr ⟨hle, rfl, rfl⟩
  | @more b n bs hb hd ih =>
    rw [List.length_cons] at hlen
    rcases Nat.lt_or_eq_of_le hi with h9 | rfl
    · have hroom := room_succ h9
      exact (formFrom_cons_iff h9).mpr (Or.inr ⟨hb, n, rfl, ih h9 (by omega) (by omega)⟩)
    · have := hd.length_pos
      omega

theorem Digits.form_iff {n : Nat} {bs : Bytes} (h : Digits n bs) :
    Form n bs ↔ bs.length ≤ 10 ∧ n < 2 ^ 64 := by
  constructor
  · intro hf
    have hlen := hf.length_le
    exact ⟨by omega, hf.lt (Nat.zero_le 9)⟩
  · intro hfits
    obtain ⟨hlen, hlt⟩ := hfits
    exact h.formFrom (Nat.zero_le 9) (by omega) hlt

/-! ## The shortest form -/

theorem encode_of_lt {n : Nat} (h : n < 128) : encode n = [UInt8.ofNat n] := by
  rw [encode, if_pos h]

theorem encode_of_ge {n : Nat} (h : 128 ≤ n) :
    encode n = UInt8.ofNat (n % 128 + 128) :: encode (n / 128) := by
  rw [encode, if_neg (by omega)]

theorem digits_encode (n : Nat) : Digits n (encode n) := by
  induction n using Nat.strongRecOn with
  | ind n ih =>
    rcases Nat.lt_or_ge n 128 with h | h
    · have hbyte : (UInt8.ofNat n).toNat = n := by
        rw [UInt8.toNat_ofNat']
        omega
      have hlast : UInt8.ofNat n < 128 := by
        rw [UInt8.lt_iff_toNat_lt, hbyte]
        exact h
      have hd := Digits.last hlast
      rw [hbyte] at hd
      rw [encode_of_lt h]
      exact hd
    · have hbyte : (UInt8.ofNat (n % 128 + 128)).toNat = n % 128 + 128 := by
        rw [UInt8.toNat_ofNat']
        omega
      have hmore : 128 ≤ UInt8.ofNat (n % 128 + 128) := by
        rw [UInt8.le_iff_toNat_le, hbyte]
        exact Nat.le_add_left 128 _
      have hn : (n % 128 + 128) % 128 + 128 * (n / 128) = n := by omega
      have hd := Digits.more hmore (ih (n / 128) (by omega))
      rw [hbyte, hn] at hd
      rw [encode_of_ge h]
      exact hd

theorem length_encode_pos (n : Nat) : 0 < (encode n).length := by
  rw [encode]
  split <;> simp

theorem length_encode_le_iff {n k : Nat} :
    (encode n).length ≤ k + 1 ↔ n < 128 ^ (k + 1) := by
  induction k generalizing n with
  | zero =>
    rcases Nat.lt_or_ge n 128 with h | h
    · simp [encode_of_lt h, h]
    · have hpos := length_encode_pos (n / 128)
      rw [encode_of_ge h, List.length_cons]
      omega
  | succ k ih =>
    have hpow : 128 ^ (k + 1 + 1) = 128 ^ (k + 1) * 128 := Nat.pow_succ 128 (k + 1)
    rcases Nat.lt_or_ge n 128 with h | h
    · have hone := Nat.one_le_pow (k + 1) 128 (by decide)
      rw [encode_of_lt h, List.length_singleton]
      omega
    · rw [encode_of_ge h, List.length_cons, Nat.add_le_add_iff_right, ih, hpow]
      exact Nat.div_lt_iff_lt_mul (by decide)

theorem form_encode {n : Nat} (h : n < 2 ^ 64) : Form n (encode n) :=
  (digits_encode n).form_iff.mpr
    ⟨length_encode_le_iff.mpr (Nat.lt_trans h (by decide : 2 ^ 64 < 128 ^ 10)), h⟩

theorem decode_encode {n : Nat} (rest : Bytes) (h : n < 2 ^ 64) :
    decode (encode n ++ rest) = (.ok n, rest) :=
  decode_eq_ok_iff.mpr ⟨encode n, form_encode h, rfl⟩

theorem length_encode_mono {m n : Nat} (h : m ≤ n) : (encode m).length ≤ (encode n).length := by
  induction m using Nat.strongRecOn generalizing n with
  | ind m ih =>
    rcases Nat.lt_or_ge n 128 with hn | hn
    · rw [encode_of_lt hn, encode_of_lt (Nat.lt_of_le_of_lt h hn)]
      exact Nat.le_refl 1
    · rw [encode_of_ge hn, List.length_cons]
      rcases Nat.lt_or_ge m 128 with hm | hm
      · rw [encode_of_lt hm, List.length_singleton]
        omega
      · rw [encode_of_ge hm, List.length_cons]
        have := ih (m / 128) (by omega) (Nat.div_le_div_right h)
        omega

/-- The digits that `encode` writes are the fewest, and no others are as few. -/
theorem Digits.shortest {n : Nat} {bs : Bytes} (h : Digits n bs) :
    (encode n).length ≤ bs.length ∧ ((encode n).length = bs.length → encode n = bs) := by
  induction h with
  | @last b hb =>
    rw [encode_of_lt (UInt8.lt_iff_toNat_lt.mp hb), UInt8.ofNat_toNat]
    exact ⟨Nat.le_refl _, fun _ => rfl⟩
  | @more b n bs hb hd ih =>
    have hpos := hd.length_pos
    have hge : 128 ≤ b.toNat := UInt8.le_iff_toNat_le.mp hb
    have hmax := b.toNat_lt
    by_cases hz : n = 0
    · -- All the higher digits are zeros, so one byte would have done.
      subst hz
      rw [encode_of_lt (by omega), List.length_singleton, List.length_cons]
      exact ⟨by omega, fun hone => by omega⟩
    · have hdigit : (b.toNat % 128 + 128 * n) % 128 + 128 = b.toNat := by omega
      have hhigh : (b.toNat % 128 + 128 * n) / 128 = n := by omega
      rw [encode_of_ge (by omega), hdigit, hhigh, UInt8.ofNat_toNat, List.length_cons,
        List.length_cons]
      exact ⟨by omega, fun heq => by rw [ih.2 (by omega)]⟩

end Length
end Mandate
