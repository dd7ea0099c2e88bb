/-
The UTF-8 reader reads exactly what is UTF-8.

That reading undoes writing is `Utf8.decode_encode`.  Here is the other direction: whatever the
reader accepts is the encoding of what it returns.  The narrowed ranges of the second byte do the
work, because they are what makes the code point of a long form too large for a shorter one.
-/
import Mandate.Text.Utf8.Lemmas

namespace Mandate
namespace Utf8

/-- What a first byte can announce, one case for each length of the encoding. -/
theorem lead?_eq_some {b : UInt8} {l : Lead} (h : lead? b = some l) :
    (b.toNat < 0x80 ∧ l.bits = b.toNat ∧ l.more = 0) ∨
      (0xC2 ≤ b.toNat ∧ b.toNat < 0xE0 ∧ l.bits = b.toNat - 0xC0 ∧ l.more = 1 ∧
        0x80 ≤ l.low ∧ l.high ≤ 0xBF) ∨
      (0xE0 ≤ b.toNat ∧ b.toNat < 0xF0 ∧ l.bits = b.toNat - 0xE0 ∧ l.more = 2 ∧
        0x80 ≤ l.low ∧ l.high ≤ 0xBF ∧ (b.toNat = 0xE0 → 0xA0 ≤ l.low) ∧
        (b.toNat = 0xED → l.high ≤ 0x9F)) ∨
      (0xF0 ≤ b.toNat ∧ b.toNat ≤ 0xF4 ∧ l.bits = b.toNat - 0xF0 ∧ l.more = 3 ∧
        0x80 ≤ l.low ∧ l.high ≤ 0xBF ∧ (b.toNat = 0xF0 → 0x90 ≤ l.low) ∧
        (b.toNat = 0xF4 → l.high ≤ 0x8F)) := by
  simp only [lead?] at h
  grind

theorem continueChar_succ_eq_char {seen code low high more : Nat} {bs rest : Bytes} {c : Char}
    (h : continueChar seen code low high (more + 1) bs = .char c rest) :
    ∃ b tail, bs = b :: tail ∧ low ≤ b.toNat ∧ b.toNat ≤ high ∧
      continueChar (seen + 1) (code * 64 + b.toNat % 64) 0x80 0xBF more tail = .char c rest := by
  cases bs with
  | nil => simp [continueChar] at h
  | cons b tail =>
    rw [continueChar] at h
    by_cases hb : low ≤ b.toNat ∧ b.toNat ≤ high
    · rw [if_pos hb] at h
      exact ⟨b, tail, rfl, hb.1, hb.2, h⟩
    · rw [if_neg hb] at h
      cases h

theorem continueChar_zero_eq_char {seen code low high : Nat} {bs rest : Bytes} {c : Char}
    (h : continueChar seen code low high 0 bs = .char c rest) :
    c = Char.ofNat code ∧ rest = bs := by
  cases h
  exact ⟨rfl, rfl⟩

theorem val_toNat_ofNat {n : Nat} (h : n < 0xD800 ∨ (0xDFFF < n ∧ n < 0x110000)) :
    (Char.ofNat n).val.toNat = n := by
  have hv : n.isValidChar := h
  rw [Char.ofNat, dif_pos hv]
  rfl

theorem ofNat_eq {n : Nat} {b : UInt8} (h : n = b.toNat) : UInt8.ofNat n = b := by
  rw [h, UInt8.ofNat_toNat]

/-! Two, three and four bytes are the encoding of the code point that they are worth. -/

theorem utf8EncodeChar_two {b c : UInt8} (hb : 0xC2 ≤ b.toNat ∧ b.toNat < 0xE0)
    (hc : 0x80 ≤ c.toNat ∧ c.toNat ≤ 0xBF) :
    String.utf8EncodeChar (Char.ofNat ((b.toNat - 0xC0) * 64 + c.toNat % 64)) = [b, c] := by
  have hval := val_toNat_ofNat (n := (b.toNat - 0xC0) * 64 + c.toNat % 64) (by omega)
  unfold String.utf8EncodeChar
  simp only [hval]
  rw [if_neg (by omega), if_pos (by omega), ofNat_eq (b := b) (by omega),
    ofNat_eq (b := c) (by omega)]

theorem utf8EncodeChar_three {b c d : UInt8} (hb : 0xE0 ≤ b.toNat ∧ b.toNat < 0xF0)
    (hc : 0x80 ≤ c.toNat ∧ c.toNat ≤ 0xBF) (hlow : b.toNat = 0xE0 → 0xA0 ≤ c.toNat)
    (hhigh : b.toNat = 0xED → c.toNat ≤ 0x9F) (hd : 0x80 ≤ d.toNat ∧ d.toNat ≤ 0xBF) :
    String.utf8EncodeChar
      (Char.ofNat (((b.toNat - 0xE0) * 64 + c.toNat % 64) * 64 + d.toNat % 64)) = [b, c, d] := by
  have hval := val_toNat_ofNat
    (n := ((b.toNat - 0xE0) * 64 + c.toNat % 64) * 64 + d.toNat % 64) (by omega)
  unfold String.utf8EncodeChar
  simp only [hval]
  rw [if_neg (by omega), if_neg (by omega), if_pos (by omega), ofNat_eq (b := b) (by omega),
    ofNat_eq (b := c) (by omega), ofNat_eq (b := d) (by omega)]

theorem utf8EncodeChar_four {b c d e : UInt8} (hb : 0xF0 ≤ b.toNat ∧ b.toNat ≤ 0xF4)
    (hc : 0x80 ≤ c.toNat ∧ c.toNat ≤ 0xBF) (hlow : b.toNat = 0xF0 → 0x90 ≤ c.toNat)
    (hhigh : b.toNat = 0xF4 → c.toNat ≤ 0x8F) (hd : 0x80 ≤ d.toNat ∧ d.toNat ≤ 0xBF)
    (he : 0x80 ≤ e.toNat ∧ e.toNat ≤ 0xBF) :
    String.utf8EncodeChar
      (Char.ofNat ((((b.toNat - 0xF0) * 64 + c.toNat % 64) * 64 + d.toNat % 64) * 64 +
        e.toNat % 64)) = [b, c, d, e] := by
  have hval := val_toNat_ofNat
    (n := (((b.toNat - 0xF0) * 64 + c.toNat % 64) * 64 + d.toNat % 64) * 64 + e.toNat % 64)
    (by omega)
  unfold String.utf8EncodeChar
  simp only [hval]
  rw [if_neg (by omega), if_neg (by omega), if_neg (by omega), ofNat_eq (b := b) (by omega),
    ofNat_eq (b := c) (by omega), ofNat_eq (b := d) (by omega), ofNat_eq (b := e) (by omega)]

theorem encode_of_next {b : UInt8} {bs rest : Bytes} {c : Char} (h : next b bs = .char c rest) :
    b :: bs = String.utf8EncodeChar c ++ rest := by
  rw [next] at h
  cases hl : lead? b with
  | none => simp [hl] at h
  | some l =>
    simp only [hl] at h
    rcases lead?_eq_some hl with ⟨hb, hbits, hmore⟩ | ⟨hb, hb', hbits, hmore, hlow, hhigh⟩ |
      ⟨hb, hb', hbits, hmore, hlow, hhigh, hE0, hED⟩ |
      ⟨hb, hb', hbits, hmore, hlow, hhigh, hF0, hF4⟩ <;> rw [hbits, hmore] at h
    · obtain ⟨rfl, rfl⟩ := continueChar_zero_eq_char h
      have hval : (Char.ofNat b.toNat).toNat = b.toNat := val_toNat_ofNat (by omega)
      rw [utf8EncodeChar_ascii (by omega), hval, UInt8.ofNat_toNat]
      rfl
    · obtain ⟨b₁, bs₁, rfl, hl₁, hh₁, h⟩ := continueChar_succ_eq_char h
      obtain ⟨rfl, rfl⟩ := continueChar_zero_eq_char h
      rw [utf8EncodeChar_two (by omega) (by omega)]
      rfl
    · obtain ⟨b₁, bs₁, rfl, hl₁, hh₁, h⟩ := continueChar_succ_eq_char h
      obtain ⟨b₂, bs₂, rfl, hl₂, hh₂, h⟩ := continueChar_succ_eq_char h
      obtain ⟨rfl, rfl⟩ := continueChar_zero_eq_char h
      rw [utf8EncodeChar_three (by omega) (by omega) (by omega) (by omega) (by omega)]
      rfl
    · obtain ⟨b₁, bs₁, rfl, hl₁, hh₁, h⟩ := continueChar_succ_eq_char h
      obtain ⟨b₂, bs₂, rfl, hl₂, hh₂, h⟩ := continueChar_succ_eq_char h
      obtain ⟨b₃, bs₃, rfl, hl₃, hh₃, h⟩ := continueChar_succ_eq_char h
      obtain ⟨rfl, rfl⟩ := continueChar_zero_eq_char h
      rw [utf8EncodeChar_four (by omega) (by omega) (by omega) (by omega) (by omega) (by omega)]
      rfl

theorem encodeChars_of_decodeFrom {index : Nat} {bs : Bytes} {cs : List Char}
    (h : decodeFrom index bs = .ok cs) : bs = encodeChars cs := by
  induction index, bs using decodeFrom.induct generalizing cs with
  | case1 index =>
    rw [decodeFrom] at h
    cases h
    rfl
  | case2 index b bs c rest hnext hlen ih =>
    rw [decodeFrom] at h
    split at h
    · rename_i c' rest' hnext'
      rw [hnext] at hnext'
      cases hnext'
      cases hrest : decodeFrom (index + c.utf8Size) rest with
      | error fault => simp [hrest, Except.map] at h
      | ok cs' =>
        simp only [hrest, Except.map, Except.ok.injEq] at h
        subst h
        rw [encode_of_next hnext, encodeChars_cons, ih hrest]
    · cases h
    · cases h
  | case3 index b bs n hnext =>
    rw [decodeFrom] at h
    split at h <;> simp_all
  | case4 index b bs hnext =>
    rw [decodeFrom] at h
    split at h <;> simp_all

theorem decode_eq_ok_iff {bs : Bytes} {s : String} : decode bs = .ok s ↔ bs = encode s := by
  constructor
  · intro h
    rw [decode] at h
    cases hcs : decodeFrom 0 bs with
    | error fault => simp [hcs, Except.map] at h
    | ok cs =>
      simp only [hcs, Except.map, Except.ok.injEq] at h
      subst h
      rw [encode, String.toList_ofList]
      exact encodeChars_of_decodeFrom hcs
  · intro h
    subst h
    exact decode_encode s

end Utf8
end Mandate
