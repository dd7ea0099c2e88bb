/-
Bytes as numbers.

Bytes in front of others count for the high part of a number, and bytes of one length are known by
their number.  Forcing bytes to a length keeps the low bytes of their number: in numbers it is a
remainder, whether bytes are cut off or zeros are put in front.
-/
import Mandate.Bytes
import Mathlib

namespace Mandate
namespace Bytes

theorem toNat_concat (bs : Bytes) (b : UInt8) :
    Bytes.toNat (bs ++ [b]) = Bytes.toNat bs * 256 + b.toNat := by
  simp [Bytes.toNat, List.foldl_append]

theorem toNat_ofNat (width n : Nat) : (ofNat width n).toNat = n % 256 ^ width := by
  induction width generalizing n with
  | zero => simp [ofNat, Bytes.toNat, Nat.mod_one]
  | succ width ih =>
    have split : n % 256 ^ (width + 1) = n % 256 + 256 * (n / 256 % 256 ^ width) := by
      rw [Nat.pow_succ', Nat.mod_mul]
    rw [ofNat, toNat_concat, ih, UInt8.toNat_ofNat', split]
    omega

theorem toNat_lt (bs : Bytes) : bs.toNat < 256 ^ bs.length := by
  induction h : bs.length generalizing bs with
  | zero =>
    obtain rfl := List.length_eq_zero_iff.mp h
    exact Nat.one_pos
  | succ n ih =>
    obtain rfl | ⟨front, b, rfl⟩ := List.eq_nil_or_concat bs
    · simp at h
    · have hfront := ih front (by simpa using h)
      have hb := b.toNat_lt
      rw [List.concat_eq_append, toNat_concat, Nat.pow_succ]
      omega

theorem ofNat_toNat (bs : Bytes) : ofNat bs.length bs.toNat = bs := by
  induction h : bs.length generalizing bs with
  | zero => exact (List.length_eq_zero_iff.mp h).symm
  | succ n ih =>
    obtain rfl | ⟨front, b, rfl⟩ := List.eq_nil_or_concat bs
    · simp at h
    · have hb := b.toNat_lt
      have hhigh : (Bytes.toNat front * 256 + b.toNat) / 256 = Bytes.toNat front := by omega
      have hlow : UInt8.ofNat (Bytes.toNat front * 256 + b.toNat) = b := by
        rw [← UInt8.toNat_inj, UInt8.toNat_ofNat']
        omega
      rw [List.concat_eq_append, toNat_concat, ofNat, hhigh, hlow, ih front (by simpa using h)]

theorem toNat_append (bs cs : Bytes) :
    toNat (bs ++ cs) = toNat bs * 256 ^ cs.length + toNat cs := by
  induction cs using List.reverseRecOn with
  | nil => simp [toNat]
  | append_singleton cs c ih =>
    have hpow : 256 ^ (cs ++ [c]).length = 256 ^ cs.length * 256 := by
      rw [List.length_append, List.length_singleton, Nat.pow_succ]
    rw [← List.append_assoc, toNat_concat, toNat_concat, ih, hpow, Nat.add_mul, Nat.mul_assoc,
      Nat.add_assoc]

theorem toNat_cons (b : UInt8) (bs : Bytes) :
    toNat (b :: bs) = b.toNat * 256 ^ bs.length + toNat bs := by
  have hone : toNat [b] = b.toNat := by simp [toNat]
  rw [← List.singleton_append, toNat_append, hone]

theorem toNat_zeros (n : Nat) : toNat (List.replicate n 0) = 0 := by
  induction n with
  | zero => rfl
  | succ n ih =>
    rw [List.replicate_succ', toNat_concat, ih]
    rfl

end Bytes

/-! ## Bytes of a fixed length -/

namespace FixedBytes

theorem toNat_padLeft (n : Nat) (bs : Bytes) :
    (padLeft n bs).bytes.toNat = bs.toNat % 256 ^ n := by
  show Bytes.toNat (List.replicate (n - bs.length) 0 ++ bs.drop (bs.length - n)) = _
  rcases Nat.le_total bs.length n with hshort | hlong
  · have hlt : bs.toNat < 256 ^ n :=
      Nat.lt_of_lt_of_le bs.toNat_lt (Nat.pow_le_pow_right (by decide) hshort)
    rw [Nat.sub_eq_zero_of_le hshort, List.drop_zero, Bytes.toNat_append, Bytes.toNat_zeros,
      Nat.zero_mul, Nat.zero_add, Nat.mod_eq_of_lt hlt]
  · have hlen : (bs.drop (bs.length - n)).length = n := by
      rw [List.length_drop]
      omega
    have hlt := Bytes.toNat_lt (bs.drop (bs.length - n))
    have hsplit := Bytes.toNat_append (bs.take (bs.length - n)) (bs.drop (bs.length - n))
    rw [List.take_append_drop, hlen] at hsplit
    rw [hlen] at hlt
    rw [Nat.sub_eq_zero_of_le hlong, List.replicate_zero, List.nil_append, hsplit,
      Nat.mul_add_mod_self_right, Nat.mod_eq_of_lt hlt]

/-- Bytes of one length are known by their number. -/
theorem ext_toNat {n : Nat} {a b : FixedBytes n} (h : a.bytes.toNat = b.bytes.toNat) : a = b := by
  apply ext_bytes
  have ha := Bytes.ofNat_toNat a.bytes
  have hb := Bytes.ofNat_toNat b.bytes
  rw [a.length_eq] at ha
  rw [b.length_eq, ← h] at hb
  exact ha.symm.trans hb

theorem padLeft_zeros_append (n count : Nat) (bs : Bytes) :
    padLeft n (List.replicate count 0 ++ bs) = padLeft n bs := by
  apply ext_toNat
  rw [toNat_padLeft, toNat_padLeft, Bytes.toNat_append, Bytes.toNat_zeros, Nat.zero_mul,
    Nat.zero_add]

theorem padLeft_nil (n : Nat) : padLeft n [] = zero n := by
  apply ext_bytes
  simp [padLeft, zero]

theorem padLeft_suffix {n : Nat} {bs : Bytes} (h : n ≤ bs.length) :
    (padLeft n bs).bytes <:+ bs := by
  have hbytes : (padLeft n bs).bytes = bs.drop (bs.length - n) := by
    show List.replicate (n - bs.length) 0 ++ bs.drop (bs.length - n) = _
    rw [Nat.sub_eq_zero_of_le h, List.replicate_zero, List.nil_append]
  rw [hbytes]
  exact List.drop_suffix _ bs

end FixedBytes

end Mandate
