/-
Encodings that keep the order of what they encode.

Lists are compared at the first place where they differ.  An encoding that is put together from
those of single elements keeps this order if the encodings of two elements already differ as the
elements do, whatever follows them.  That is so for bytes as two digits, because the first digit is
the high one, and for characters in UTF-8, because a longer encoding has a larger first byte and
encodings of one length are the digits of the code points.
-/
import Mandate.Proofs.Hex.Number
import Mandate.Proofs.Utf8.Forms
import Mathlib

namespace Mandate

/-! ## Lists -/

section Lists

variable {α β γ : Type} [Ord β] [Ord γ]

theorem compare_append_of_length_eq {xs ys : List β} (h : xs.length = ys.length)
    (xs' ys' : List β) :
    compare (xs ++ xs') (ys ++ ys') = (compare xs ys).then (compare xs' ys') := by
  induction xs generalizing ys with
  | nil =>
    obtain rfl := List.length_eq_zero_iff.mp h.symm
    rw [List.nil_append, List.nil_append, List.compare_nil_nil, Ordering.eq_then]
  | cons x xs ih =>
    cases ys with
    | nil => cases h
    | cons y ys =>
      rw [List.cons_append, List.cons_append, List.compare_cons_cons, List.compare_cons_cons,
        ih (Nat.succ.inj h), Ordering.then_assoc]

theorem compare_append_left [Std.ReflOrd β] (front xs ys : List β) :
    compare (front ++ xs) (front ++ ys) = compare xs ys := by
  rw [compare_append_of_length_eq rfl, Std.ReflOrd.compare_self, Ordering.eq_then]

/-- Lists of encodings are in the order of what `key` says of the elements if any two encodings are,
whatever follows them. -/
theorem compare_flatMap {f : α → List β} {key : α → γ} (hne : ∀ a, f a ≠ [])
    (hf : ∀ a b xs ys,
      compare (f a ++ xs) (f b ++ ys) = (compare (key a) (key b)).then (compare xs ys))
    (as bs : List α) :
    compare (as.flatMap f) (bs.flatMap f) = compare (as.map key) (bs.map key) := by
  induction as generalizing bs with
  | nil =>
    cases bs with
    | nil => rfl
    | cons b bs =>
      obtain ⟨x, xs, hx⟩ := List.exists_cons_of_ne_nil (hne b)
      rw [List.flatMap_cons, hx]
      rfl
  | cons a as ih =>
    cases bs with
    | nil =>
      obtain ⟨x, xs, hx⟩ := List.exists_cons_of_ne_nil (hne a)
      rw [List.flatMap_cons, hx]
      rfl
    | cons b bs =>
      rw [List.flatMap_cons, List.flatMap_cons, hf, ih, List.map_cons, List.map_cons,
        List.compare_cons_cons]

end Lists

/-! ## Numbers -/

/-- The high digit decides first. -/
theorem compare_digits {base a b x y : Nat} (hx : x < base) (hy : y < base) :
    compare (a * base + x) (b * base + y) = (compare a b).then (compare x y) := by
  rcases Nat.lt_trichotomy a b with hab | rfl | hab
  · have hstep : (a + 1) * base ≤ b * base := Nat.mul_le_mul_right base hab
    rw [Nat.add_mul, Nat.one_mul] at hstep
    rw [Nat.compare_eq_lt.mpr hab, Ordering.lt_then, Nat.compare_eq_lt]
    omega
  · rw [Nat.compare_eq_eq.mpr rfl, Ordering.eq_then]
    rcases Nat.lt_trichotomy x y with hxy | rfl | hxy
    · rw [Nat.compare_eq_lt.mpr hxy, Nat.compare_eq_lt]
      omega
    · rw [Nat.compare_eq_eq.mpr rfl, Nat.compare_eq_eq.mpr rfl]
    · rw [Nat.compare_eq_gt.mpr hxy, Nat.compare_eq_gt]
      omega
  · have hstep : (b + 1) * base ≤ a * base := Nat.mul_le_mul_right base hab
    rw [Nat.add_mul, Nat.one_mul] at hstep
    rw [Nat.compare_eq_gt.mpr hab, Ordering.gt_then, Nat.compare_eq_gt]
    omega

/-- Byte strings of one length are in the order of their numbers. -/
theorem Bytes.compare_toNat {bs cs : Bytes} (h : bs.length = cs.length) :
    compare bs.toNat cs.toNat = compare bs cs := by
  induction bs generalizing cs with
  | nil =>
    obtain rfl := List.length_eq_zero_iff.mp h.symm
    rfl
  | cons b bs ih =>
    cases cs with
    | nil => cases h
    | cons c cs =>
      have hlen : bs.length = cs.length := Nat.succ.inj h
      have hc := toNat_lt cs
      rw [← hlen] at hc
      rw [toNat_cons, toNat_cons, ← hlen, compare_digits (toNat_lt bs) hc, ih hlen,
        List.compare_cons_cons, UInt8.compare_eq_toNat_compare_toNat]

/-! ## Digits of bytes -/

namespace Hex

theorem compare_digitChar {m n : Nat} (hm : m < 16) (hn : n < 16) :
    compare (Nat.digitChar m).toNat (Nat.digitChar n).toNat = compare m n := by
  have each : ∀ i j : Fin 16,
      compare (Nat.digitChar i.val).toNat (Nat.digitChar j.val).toNat = compare i.val j.val := by
    decide
  exact each ⟨m, hm⟩ ⟨n, hn⟩

theorem compare_encodeByte_append (b c : UInt8) (xs ys : List Nat) :
    compare ((encodeByte b).map Char.toNat ++ xs) ((encodeByte c).map Char.toNat ++ ys) =
      (compare b c).then (compare xs ys) := by
  have hb := b.toNat_lt
  have hc := c.toNat_lt
  have hsplit := compare_digits (a := b.toNat / 16) (b := c.toNat / 16)
    (Nat.mod_lt b.toNat (by decide : 0 < 16)) (Nat.mod_lt c.toNat (by decide))
  rw [Nat.div_add_mod', Nat.div_add_mod'] at hsplit
  show compare (_ :: _ :: xs) (_ :: _ :: ys) = _
  rw [List.compare_cons_cons, List.compare_cons_cons, compare_digitChar (by omega) (by omega),
    compare_digitChar (by omega) (by omega), ← Ordering.then_assoc, ← hsplit,
    UInt8.compare_eq_toNat_compare_toNat]

/-- Digits are in the order of the bytes that they spell. -/
theorem compare_encodeChars (bs cs : Bytes) :
    compare ((encodeChars bs).map Char.toNat) ((encodeChars cs).map Char.toNat) =
      compare bs cs := by
  have h : compare (bs.flatMap fun b => (encodeByte b).map Char.toNat)
      (cs.flatMap fun b => (encodeByte b).map Char.toNat) = compare (bs.map id) (cs.map id) :=
    compare_flatMap (fun b => List.cons_ne_nil _ _) compare_encodeByte_append bs cs
  rw [encodeChars, encodeChars, List.map_flatMap, List.map_flatMap, h, List.map_id, List.map_id]

end Hex

/-! ## Characters in UTF-8 -/

namespace Utf8

theorem compare_ofNat_add {m n mark : Nat} (hm : m + mark < 256) (hn : n + mark < 256) :
    compare (UInt8.ofNat (m + mark)) (UInt8.ofNat (n + mark)) = compare m n := by
  rw [UInt8.compare_eq_toNat_compare_toNat, UInt8.toNat_ofNat', UInt8.toNat_ofNat',
    Nat.mod_eq_of_lt hm, Nat.mod_eq_of_lt hn]
  rcases Nat.lt_trichotomy m n with h | h | h
  · rw [Nat.compare_eq_lt.mpr h, Nat.compare_eq_lt]
    omega
  · rw [Nat.compare_eq_eq.mpr h, Nat.compare_eq_eq]
    omega
  · rw [Nat.compare_eq_gt.mpr h, Nat.compare_eq_gt]
    omega

/-- The bytes that continue a character are the digits of the low part of its code point. -/
theorem compare_continuation (more m n : Nat) :
    compare (continuation more m) (continuation more n) =
      compare (m % 64 ^ more) (n % 64 ^ more) := by
  induction more with
  | zero => rw [Nat.pow_zero, Nat.mod_one, Nat.mod_one]; rfl
  | succ more ih =>
    have hpos : 0 < 64 ^ more := Nat.pow_pos (by decide)
    have hdigit (n : Nat) : n / 64 ^ more % 64 + 0x80 < 256 := by omega
    have hsplit (n : Nat) :
        n % 64 ^ (more + 1) = n / 64 ^ more % 64 * 64 ^ more + n % 64 ^ more := by
      rw [Nat.mod_pow_succ, Nat.add_comm, Nat.mul_comm]
    rw [continuation, continuation, List.compare_cons_cons, ih,
      compare_ofNat_add (hdigit m) (hdigit n), hsplit, hsplit,
      compare_digits (Nat.mod_lt m hpos) (Nat.mod_lt n hpos)]

/-- In forms of one length the first byte has the high part of the code point. -/
theorem compare_form {more m n : Nat} (hmore : more < 4) (hm : m < room more)
    (hn : n < room more) : compare (form more m) (form more n) = compare m n := by
  cases more with
  | zero =>
    simp only [room] at hm hn
    show compare [UInt8.ofNat (m + 0)] [UInt8.ofNat (n + 0)] = compare m n
    rw [List.compare_cons_cons, compare_ofNat_add (by omega) (by omega), List.compare_nil_nil,
      Ordering.then_eq]
  | succ more =>
    have hpos : 0 < 64 ^ (more + 1) := Nat.pow_pos (by decide)
    have hfirst {n : Nat} (h : n < room (more + 1)) :
        n / 64 ^ (more + 1) + (256 - 2 ^ (6 - more)) < 256 := by
      have hcases : more = 0 ∨ more = 1 ∨ more = 2 := by omega
      rcases hcases with rfl | rfl | rfl <;> simp only [room] at h <;> omega
    rw [form, form, List.compare_cons_cons, compare_ofNat_add (hfirst hm) (hfirst hn),
      compare_continuation, ← compare_digits (Nat.mod_lt m hpos) (Nat.mod_lt n hpos),
      Nat.div_add_mod', Nat.div_add_mod']

/-- The first byte of a longer encoding is larger. -/
theorem exists_first_byte (c : Char) :
    ∃ b tail, String.utf8EncodeChar c = b :: tail ∧
      ((tail.length = 0 ∧ b.toNat < 0x80) ∨
        (tail.length = 1 ∧ 0x80 ≤ b.toNat ∧ b.toNat < 0xE0) ∨
        (tail.length = 2 ∧ 0xE0 ≤ b.toNat ∧ b.toNat < 0xF0) ∨
        (tail.length = 3 ∧ 0xF0 ≤ b.toNat)) := by
  obtain ⟨b, tail, hencode, hnext⟩ := next_encode c []
  refine ⟨b, tail, hencode, ?_⟩
  rw [List.append_nil, next] at hnext
  cases hl : lead? b with
  | none => simp [hl] at hnext
  | some l =>
    simp only [hl] at hnext
    have hlen := continueChar_length hnext
    have hlead := lead?_eq_some hl
    rw [List.length_nil] at hlen
    omega

theorem compare_of_length_lt {c d : Char}
    (h : (String.utf8EncodeChar c).length < (String.utf8EncodeChar d).length) (xs ys : Bytes) :
    compare (String.utf8EncodeChar c ++ xs) (String.utf8EncodeChar d ++ ys) = .lt := by
  obtain ⟨b, tail, hc, hb⟩ := exists_first_byte c
  obtain ⟨b', tail', hd, hb'⟩ := exists_first_byte d
  rw [hc, hd, List.length_cons, List.length_cons] at h
  have hfirst : b.toNat < b'.toNat := by omega
  rw [hc, hd, List.cons_append, List.cons_append, List.compare_cons_cons,
    UInt8.compare_eq_toNat_compare_toNat, Nat.compare_eq_lt.mpr hfirst, Ordering.lt_then]

theorem compare_append_of_lt {c d : Char} (h : c.toNat < d.toNat) (xs ys : Bytes) :
    compare (String.utf8EncodeChar c ++ xs) (String.utf8EncodeChar d ++ ys) = .lt := by
  obtain ⟨more, hmore, hroom, hleast, hc⟩ := exists_form c
  obtain ⟨more', -, hroom', -, hd⟩ := exists_form d
  have hle : more ≤ more' := by
    -- A shorter form with room for the larger character has room for the smaller one.
    by_contra hfewer
    have := hleast more' (Nat.not_le.mp hfewer)
    omega
  rcases Nat.lt_or_eq_of_le hle with hlt | rfl
  · refine compare_of_length_lt ?_ xs ys
    rw [hc, hd, length_form, length_form]
    omega
  · have hsame : (form more c.toNat).length = (form more d.toNat).length := by
      rw [length_form, length_form]
    rw [hc, hd, compare_append_of_length_eq hsame, compare_form hmore hroom hroom',
      Nat.compare_eq_lt.mpr h, Ordering.lt_then]

theorem compare_utf8EncodeChar_append (c d : Char) (xs ys : Bytes) :
    compare (String.utf8EncodeChar c ++ xs) (String.utf8EncodeChar d ++ ys) =
      (compare c.toNat d.toNat).then (compare xs ys) := by
  rcases Nat.lt_trichotomy c.toNat d.toNat with h | h | h
  · rw [compare_append_of_lt h, Nat.compare_eq_lt.mpr h, Ordering.lt_then]
  · rw [Nat.compare_eq_eq.mpr h, Ordering.eq_then, Char.toNat_inj.mp h, compare_append_left]
  · rw [Std.OrientedOrd.eq_swap, compare_append_of_lt h, Nat.compare_eq_gt.mpr h, Ordering.gt_then]
    rfl

/-- Texts are in the order of their code points. -/
theorem compare_encode (s t : String) :
    compare (encode s) (encode t) =
      compare (s.toList.map Char.toNat) (t.toList.map Char.toNat) := by
  have hne (c : Char) : String.utf8EncodeChar c ≠ [] := by
    obtain ⟨b, tail, hc, -⟩ := exists_first_byte c
    rw [hc]
    exact List.cons_ne_nil b tail
  exact compare_flatMap hne compare_utf8EncodeChar_append s.toList t.toList

end Utf8
end Mandate
