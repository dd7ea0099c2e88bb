/-
The forms of UTF-8, filled with any number.

The pattern of a character of so many bytes has room for numbers that are not to be encoded in it:
those that a shorter pattern has room for, the surrogates, and those that are no code points at all.
With any of these the first or the second byte already rules out every character, and that is where
such a form is refused.  With any other number it is the encoding of that character.
-/
import Mandate.Proofs.Utf8.Outcome
import Mathlib

namespace Mandate
namespace Utf8

/-- The bytes that continue a character: six bits of the code point in each, the highest first. -/
def continuation : (more : Nat) → Nat → Bytes
  | 0, _ => []
  | more + 1, n => UInt8.ofNat (n / 64 ^ more % 64 + 0x80) :: continuation more n

/-- The bits of a code point laid out in `more + 1` bytes, whether or not this is its encoding.  The
ones in front of the first byte count the bytes. -/
def form : (more : Nat) → Nat → Bytes
  | 0, n => [UInt8.ofNat n]
  | more + 1, n =>
    UInt8.ofNat (n / 64 ^ (more + 1) + (256 - 2 ^ (6 - more))) :: continuation (more + 1) n

/-- For how many code points a form of `more + 1` bytes has room. -/
def room : (more : Nat) → Nat
  | 0 => 2 ^ 7
  | more + 1 => 2 ^ (11 + 5 * more)

/-- A form that is no encoding: there is a shorter one with room for the code point, or the code
point is a surrogate, or it is above all code points. -/
inductive Forbidden (more n : Nat) : Prop
  | overlong {fewer : Nat} : fewer < more → n < room fewer → Forbidden more n
  | surrogate : 0xD800 ≤ n → n ≤ 0xDFFF → Forbidden more n
  | tooLarge : 0x10FFFF < n → Forbidden more n

theorem length_continuation (more n : Nat) : (continuation more n).length = more := by
  induction more with
  | zero => rfl
  | succ more ih => rw [continuation, List.length_cons, ih]

theorem length_form (more n : Nat) : (form more n).length = more + 1 := by
  cases more with
  | zero => rfl
  | succ more => rw [form, List.length_cons, length_continuation]

theorem form_one (n : Nat) :
    form 1 n = [UInt8.ofNat (n / 64 + 0xC0), UInt8.ofNat (n % 64 + 0x80)] := by
  simp [form, continuation]

theorem form_two (n : Nat) :
    form 2 n = [UInt8.ofNat (n / 4096 + 0xE0), UInt8.ofNat (n / 64 % 64 + 0x80),
      UInt8.ofNat (n % 64 + 0x80)] := by
  simp [form, continuation]

theorem form_three (n : Nat) :
    form 3 n = [UInt8.ofNat (n / 262144 + 0xF0), UInt8.ofNat (n / 4096 % 64 + 0x80),
      UInt8.ofNat (n / 64 % 64 + 0x80), UInt8.ofNat (n % 64 + 0x80)] := by
  simp [form, continuation]

theorem room_mono : Monotone room := by
  refine monotone_nat_of_le_succ fun more => ?_
  cases more with
  | zero => decide
  | succ more => exact Nat.pow_le_pow_right (by decide) (by omega)

theorem lead?_eq_none {b : UInt8} (h : (0x80 ≤ b.toNat ∧ b.toNat < 0xC2) ∨ 0xF4 < b.toNat) :
    lead? b = none := by
  cases hl : lead? b with
  | none => rfl
  | some l =>
    have hlead := lead?_eq_some hl
    omega

theorem next_of_noLead {b : UInt8} (h : (0x80 ≤ b.toNat ∧ b.toNat < 0xC2) ∨ 0xF4 < b.toNat)
    (bs : Bytes) : next b bs = .illFormed 1 := by
  simp only [next, lead?_eq_none h]

theorem next_of_outOfRange {b c : UInt8} {l : Lead} (hl : lead? b = some l) (hmore : l.more ≠ 0)
    (h : ¬ (l.low ≤ c.toNat ∧ c.toNat ≤ l.high)) (bs : Bytes) :
    next b (c :: bs) = .illFormed 1 := by
  obtain ⟨more, hsucc⟩ := Nat.exists_eq_succ_of_ne_zero hmore
  simp only [next, hl, hsucc]
  rw [continueChar, if_neg h]

/-! ## Forms that are no encodings -/

/-- No character begins with the first byte, or none with the first two. -/
def RuledOut (bs : Bytes) : Prop :=
  ∃ b tail, bs = b :: tail ∧ ∀ rest, next b (tail ++ rest) = .illFormed 1

theorem ruledOut_form_one {n : Nat} (h : n < 2 ^ 7) : RuledOut (form 1 n) := by
  refine ⟨_, _, form_one n, fun rest => next_of_noLead ?_ _⟩
  rw [UInt8.toNat_ofNat']
  omega

theorem ruledOut_form_two {n : Nat} (hroom : n < 2 ^ 16)
    (h : n < 2 ^ 11 ∨ (0xD800 ≤ n ∧ n ≤ 0xDFFF)) : RuledOut (form 2 n) := by
  refine ⟨_, _, form_two n, fun rest => ?_⟩
  have hsecond : (UInt8.ofNat (n / 64 % 64 + 0x80)).toNat = n / 64 % 64 + 0x80 := by
    rw [UInt8.toNat_ofNat']
    omega
  rcases h with hoverlong | hsurrogate
  · have hfirst : n / 4096 + 0xE0 = 0xE0 := by omega
    rw [hfirst]
    refine next_of_outOfRange (l := ⟨0, 2, 0xA0, 0xBF⟩) rfl (by decide) ?_ _
    rw [hsecond]
    show ¬ (0xA0 ≤ _ ∧ _)
    omega
  · have hfirst : n / 4096 + 0xE0 = 0xED := by omega
    rw [hfirst]
    refine next_of_outOfRange (l := ⟨0xD, 2, 0x80, 0x9F⟩) rfl (by decide) ?_ _
    rw [hsecond]
    show ¬ (_ ∧ _ ≤ 0x9F)
    omega

theorem ruledOut_form_three {n : Nat} (hroom : n < 2 ^ 21) (h : n < 2 ^ 16 ∨ 0x10FFFF < n) :
    RuledOut (form 3 n) := by
  refine ⟨_, _, form_three n, fun rest => ?_⟩
  have hsecond : (UInt8.ofNat (n / 4096 % 64 + 0x80)).toNat = n / 4096 % 64 + 0x80 := by
    rw [UInt8.toNat_ofNat']
    omega
  rcases h with hoverlong | hlarge
  · have hfirst : n / 262144 + 0xF0 = 0xF0 := by omega
    rw [hfirst]
    refine next_of_outOfRange (l := ⟨0, 3, 0x90, 0xBF⟩) rfl (by decide) ?_ _
    rw [hsecond]
    show ¬ (0x90 ≤ _ ∧ _)
    omega
  by_cases hlead : n / 262144 = 4
  · rw [hlead]
    refine next_of_outOfRange (l := ⟨4, 3, 0x80, 0x8F⟩) rfl (by decide) ?_ _
    rw [hsecond]
    show ¬ (_ ∧ _ ≤ 0x8F)
    omega
  · refine next_of_noLead (Or.inr ?_) _
    rw [UInt8.toNat_ofNat']
    omega

/-- No character has more than four bytes. -/
theorem ruledOut_form_long {more n : Nat} (hmore : more = 4 ∨ more = 5) (hroom : n < room more) :
    RuledOut (form more n) := by
  rcases hmore with rfl | rfl
  all_goals
    simp only [room] at hroom
    refine ⟨_, _, rfl, fun rest => next_of_noLead (Or.inr ?_) _⟩
    simp only [UInt8.toNat_ofNat', Nat.reduceAdd, Nat.reduceSub, Nat.reducePow]
    omega

theorem ruledOut_form {more n : Nat} (hmore : more ≤ 5) (hroom : n < room more)
    (h : Forbidden more n) : RuledOut (form more n) := by
  have hcause : (0 < more ∧ n < room (more - 1)) ∨ (0xD800 ≤ n ∧ n ≤ 0xDFFF) ∨ 0x10FFFF < n := by
    cases h with
    | overlong hfewer hn =>
      exact Or.inl ⟨by omega, Nat.lt_of_lt_of_le hn (room_mono (by omega))⟩
    | surrogate hlow hhigh => exact Or.inr (Or.inl ⟨hlow, hhigh⟩)
    | tooLarge hlarge => exact Or.inr (Or.inr hlarge)
  clear h
  interval_cases more
  · simp only [room, Nat.reduceSub] at hroom hcause
    omega
  · simp only [room, Nat.reduceSub] at hroom hcause
    exact ruledOut_form_one (by omega)
  · simp only [room, Nat.reduceSub] at hroom hcause
    exact ruledOut_form_two hroom (by omega)
  · simp only [room, Nat.reduceSub] at hroom hcause
    exact ruledOut_form_three hroom (by omega)
  · exact ruledOut_form_long (Or.inl rfl) hroom
  · exact ruledOut_form_long (Or.inr rfl) hroom

/-- All other forms are encodings. -/
theorem exists_encode_eq_form {more n : Nat} (hroom : n < room more) (h : ¬ Forbidden more n) :
    ∃ c : Char, c.toNat = n ∧ String.utf8EncodeChar c = form more n := by
  have hsize {fewer : Nat} (hfewer : fewer < more) : room fewer ≤ n := by
    by_contra hn
    exact h (.overlong hfewer (Nat.not_le.mp hn))
  have hsurrogate : n < 0xD800 ∨ 0xDFFF < n := by
    by_contra hn
    exact h (.surrogate (by omega) (by omega))
  have hlarge : n ≤ 0x10FFFF := by
    by_contra hn
    exact h (.tooLarge (by omega))
  have hval : (Char.ofNat n).val.toNat = n := val_toNat_ofNat (by omega)
  have hmore : more < 4 := by
    by_contra hlong
    have hthree : room 3 ≤ n := hsize (by omega)
    simp only [room] at hthree
    omega
  refine ⟨Char.ofNat n, hval, ?_⟩
  unfold String.utf8EncodeChar
  simp only [hval]
  interval_cases more
  · simp only [room] at hroom
    rw [if_pos (by omega)]
    rfl
  · have hzero : room 0 ≤ n := hsize (by omega)
    simp only [room] at hroom hzero
    have hlead : n / 64 % 32 = n / 64 := Nat.mod_eq_of_lt (by omega)
    rw [if_neg (by omega), if_pos (by omega), form_one, hlead]
  · have hone : room 1 ≤ n := hsize (by omega)
    simp only [room] at hroom hone
    have hlead : n / 4096 % 16 = n / 4096 := Nat.mod_eq_of_lt (by omega)
    rw [if_neg (by omega), if_neg (by omega), if_pos (by omega), form_two, hlead]
  · have htwo : room 2 ≤ n := hsize (by omega)
    simp only [room] at hroom htwo
    have hlead : n / 262144 % 8 = n / 262144 := Nat.mod_eq_of_lt (by omega)
    rw [if_neg (by omega), if_neg (by omega), if_neg (by omega), form_three, hlead]

/-- A character is encoded in the shortest form that has room for it. -/
theorem exists_form (c : Char) :
    ∃ more, more < 4 ∧ c.toNat < room more ∧ (∀ fewer < more, room fewer ≤ c.toNat) ∧
      String.utf8EncodeChar c = form more c.toNat := by
  have hvalid : c.toNat < 0xD800 ∨ (0xDFFF < c.toNat ∧ c.toNat < 0x110000) := c.valid
  have hthree : c.toNat < room 3 := by
    simp only [room]
    omega
  have hsome : ∃ more, c.toNat < room more := ⟨3, hthree⟩
  have hleast {fewer : Nat} (h : fewer < Nat.find hsome) : room fewer ≤ c.toNat :=
    Nat.not_lt.mp (Nat.find_min hsome h)
  have hallowed : ¬ Forbidden (Nat.find hsome) c.toNat := by
    intro h
    cases h with
    | overlong hfewer hroom => exact Nat.not_lt.mpr (hleast hfewer) hroom
    | surrogate hlow hhigh => omega
    | tooLarge hlarge => omega
  obtain ⟨c', hc', hform⟩ := exists_encode_eq_form (Nat.find_spec hsome) hallowed
  obtain rfl : c' = c := Char.toNat_inj.mp hc'
  exact ⟨Nat.find hsome, Nat.lt_succ_of_le (Nat.find_min' hsome hthree), Nat.find_spec hsome,
    fun _ => hleast, hform⟩

theorem decode_form {more n : Nat} (hmore : more ≤ 5) (hroom : n < room more)
    (h : Forbidden more n) (s : String) (bs : Bytes) :
    decode (encode s ++ form more n ++ bs) = .error ⟨(encode s).length, some 1⟩ := by
  obtain ⟨b, tail, hform, hnext⟩ := ruledOut_form hmore hroom h
  rw [hform, List.append_assoc, encode, decode_append, List.cons_append,
    decodeFrom_of_illFormed (hnext bs)]
  rfl

end Utf8
end Mandate
