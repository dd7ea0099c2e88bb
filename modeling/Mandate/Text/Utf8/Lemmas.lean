/-
Reading UTF-8 undoes writing it.
-/
import Mandate.Text.Utf8

namespace Mandate
namespace Utf8

theorem encodeChars_cons (c : Char) (cs : List Char) :
    encodeChars (c :: cs) = String.utf8EncodeChar c ++ encodeChars cs := by
  simp [encodeChars]

/-- An ASCII character is its own byte. -/
theorem utf8EncodeChar_ascii {c : Char} (h : c.toNat < 128) :
    String.utf8EncodeChar c = [UInt8.ofNat c.toNat] := by
  have small : c.val.toNat ≤ 0x7f := by
    have : c.val.toNat = c.toNat := rfl
    omega
  unfold String.utf8EncodeChar
  simp only [small, if_true]
  rfl

/-- A character is read back from its encoding, whatever follows it.  There is one case for each
length of the encoding, and in each the first byte announces that length. -/
theorem next_encode (c : Char) (rest : Bytes) :
    ∃ b tail, String.utf8EncodeChar c = b :: tail ∧ next b (tail ++ rest) = .char c rest := by
  have range : c.toNat < 0xD800 ∨ (0xDFFF < c.toNat ∧ c.toNat < 0x110000) := c.valid
  have back : Char.ofNat c.toNat = c := Char.ofNat_toNat c
  generalize hn : c.toNat = n at range back
  have hv : c.val.toNat = n := hn
  unfold String.utf8EncodeChar
  simp only [hv]
  split
  · rename_i h
    refine ⟨_, _, rfl, ?_⟩
    have byte : (UInt8.ofNat n).toNat = n := by
      rw [UInt8.toNat_ofNat']
      omega
    have : n < 128 := by omega
    simp [next, lead?, byte, this, continueChar, back]
  split
  · rename_i h1 h2
    refine ⟨_, _, rfl, ?_⟩
    have b1 : (UInt8.ofNat (n / 64 % 32 + 192)).toNat = n / 64 + 192 := by
      rw [UInt8.toNat_ofNat']
      omega
    have b2 : (UInt8.ofNat (n % 64 + 128)).toNat = n % 64 + 128 := by
      rw [UInt8.toNat_ofNat']
      omega
    have hl : lead? (UInt8.ofNat (n / 64 % 32 + 192)) = some ⟨n / 64, 1, 0x80, 0xBF⟩ := by
      simp only [lead?, b1]
      rw [if_neg (by omega), if_neg (by omega), if_pos (by omega)]
      simp
    have code : n / 64 * 64 + (n % 64 + 128) % 64 = n := by omega
    simp only [next, hl, List.cons_append, List.nil_append, continueChar, b2]
    rw [if_pos (by omega), code, back]
  split
  · rename_i h1 h2 h3
    refine ⟨_, _, rfl, ?_⟩
    have b1 : (UInt8.ofNat (n / 4096 % 16 + 224)).toNat = n / 4096 + 224 := by
      rw [UInt8.toNat_ofNat']
      omega
    have b2 : (UInt8.ofNat (n / 64 % 64 + 128)).toNat = n / 64 % 64 + 128 := by
      rw [UInt8.toNat_ofNat']
      omega
    have b3 : (UInt8.ofNat (n % 64 + 128)).toNat = n % 64 + 128 := by
      rw [UInt8.toNat_ofNat']
      omega
    have hl : ∃ low high,
        lead? (UInt8.ofNat (n / 4096 % 16 + 224)) = some ⟨n / 4096, 2, low, high⟩ ∧
        low ≤ n / 64 % 64 + 128 ∧ n / 64 % 64 + 128 ≤ high := by
      simp only [lead?, b1]
      rw [if_neg (by omega), if_neg (by omega), if_neg (by omega)]
      by_cases h0 : n / 4096 = 0
      · rw [if_pos (by omega)]
        exact ⟨_, _, by rw [h0], by omega, by omega⟩
      rw [if_neg (by omega)]
      by_cases hd : n / 4096 = 0xD
      · rw [if_pos (by omega)]
        exact ⟨_, _, by rw [hd], by omega, by omega⟩
      rw [if_neg (by omega), if_pos (by omega)]
      exact ⟨_, _, by rw [Nat.add_sub_cancel], by omega, by omega⟩
    obtain ⟨low, high, hl, hlow, hhigh⟩ := hl
    have code : (n / 4096 * 64 + (n / 64 % 64 + 128) % 64) * 64 + (n % 64 + 128) % 64 = n := by
      omega
    simp only [next, hl, List.cons_append, List.nil_append, continueChar, b2, b3]
    rw [if_pos ⟨hlow, hhigh⟩, if_pos (by omega), code, back]
  · rename_i h1 h2 h3
    refine ⟨_, _, rfl, ?_⟩
    have b1 : (UInt8.ofNat (n / 262144 % 8 + 240)).toNat = n / 262144 + 240 := by
      rw [UInt8.toNat_ofNat']
      omega
    have b2 : (UInt8.ofNat (n / 4096 % 64 + 128)).toNat = n / 4096 % 64 + 128 := by
      rw [UInt8.toNat_ofNat']
      omega
    have b3 : (UInt8.ofNat (n / 64 % 64 + 128)).toNat = n / 64 % 64 + 128 := by
      rw [UInt8.toNat_ofNat']
      omega
    have b4 : (UInt8.ofNat (n % 64 + 128)).toNat = n % 64 + 128 := by
      rw [UInt8.toNat_ofNat']
      omega
    have hl : ∃ low high,
        lead? (UInt8.ofNat (n / 262144 % 8 + 240)) = some ⟨n / 262144, 3, low, high⟩ ∧
        low ≤ n / 4096 % 64 + 128 ∧ n / 4096 % 64 + 128 ≤ high := by
      simp only [lead?, b1]
      rw [if_neg (by omega), if_neg (by omega), if_neg (by omega), if_neg (by omega),
        if_neg (by omega), if_neg (by omega)]
      by_cases h0 : n / 262144 = 0
      · rw [if_pos (by omega)]
        exact ⟨_, _, by rw [h0], by omega, by omega⟩
      rw [if_neg (by omega)]
      by_cases h4 : n / 262144 = 4
      · rw [if_neg (by omega), if_pos (by omega)]
        exact ⟨_, _, by rw [h4], by omega, by omega⟩
      rw [if_pos (by omega)]
      exact ⟨_, _, by rw [Nat.add_sub_cancel], by omega, by omega⟩
    obtain ⟨low, high, hl, hlow, hhigh⟩ := hl
    have code : ((n / 262144 * 64 + (n / 4096 % 64 + 128) % 64) * 64 +
        (n / 64 % 64 + 128) % 64) * 64 + (n % 64 + 128) % 64 = n := by omega
    simp only [next, hl, List.cons_append, List.nil_append, continueChar, b2, b3, b4]
    rw [if_pos ⟨hlow, hhigh⟩, if_pos (by omega), if_pos (by omega), code, back]

theorem decodeFrom_encodeChars (index : Nat) (cs : List Char) :
    decodeFrom index (encodeChars cs) = .ok cs := by
  induction cs generalizing index with
  | nil => simp [encodeChars, decodeFrom]
  | cons c cs ih =>
    obtain ⟨b, tail, hb, hnext⟩ := next_encode c (encodeChars cs)
    have : encodeChars (c :: cs) = b :: (tail ++ encodeChars cs) := by
      simp [encodeChars, hb]
    rw [this, decodeFrom]
    split
    · rename_i h
      rw [hnext] at h
      cases h
      rw [ih]
      rfl
    · rename_i h
      rw [hnext] at h
      cases h
    · rename_i h
      rw [hnext] at h
      cases h

theorem decode_encode (s : String) : decode (encode s) = .ok s := by
  rw [decode, encode, decodeFrom_encodeChars]
  simp [Except.map]

end Utf8
end Mandate
