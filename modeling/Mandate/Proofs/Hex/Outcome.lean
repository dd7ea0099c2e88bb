/-
What reading hexadecimal digits comes to, on every input.

Digits are read as bytes of UTF-8, so a character that is no digit spoils them at its first byte.
Either there is something wrong with the digits, in one of the two ways of `Faulty`, or they spell
bytes, and the reader says which.  The reader of leading digits never complains: it goes as far as
pairs of digits go, so it finds all the bytes that the first digits can spell.
-/
import Mandate.Proofs.Hex.Digits
import Mathlib

namespace Mandate
namespace Hex

/-! ## Bytes that are digits -/

/-- A byte that stands for a digit, of any value and in either case. -/
def IsDigitByte (b : UInt8) : Prop :=
  ∃ n, IsDigit n (Char.ofNat b.toNat)

theorem toNat_ofNat_toNat (b : UInt8) : (Char.ofNat b.toNat).toNat = b.toNat := by
  have hvalid : b.toNat.isValidChar := Or.inl (Nat.lt_trans b.toNat_lt (by decide))
  rw [Char.toNat_ofNat, if_pos hvalid]

theorem isDigit_of_digit? {code n : Nat} (h : digit? code = some n) :
    IsDigit n (Char.ofNat code) := by
  have each : ∀ i : Fin 128, ∀ n ∈ digit? i.val, n < 16 ∧
      (Char.ofNat i.val = Nat.digitChar n ∨ Char.ofNat i.val = (Nat.digitChar n).toUpper) := by
    decide
  have hlt : code < 128 := by
    by_contra hge
    rw [digit?, if_neg (by omega), if_neg (by omega), if_neg (by omega)] at h
    cases h
  exact each ⟨code, hlt⟩ n h

theorem digit?_toNat_eq_some_iff {b : UInt8} {n : Nat} :
    digit? b.toNat = some n ↔ IsDigit n (Char.ofNat b.toNat) := by
  refine ⟨isDigit_of_digit?, fun h => ?_⟩
  have hread := digit?_of_isDigit h
  rwa [toNat_ofNat_toNat] at hread

theorem isSome_digit?_iff {b : UInt8} : (digit? b.toNat).isSome ↔ IsDigitByte b := by
  simp only [Option.isSome_iff_exists, digit?_toNat_eq_some_iff, IsDigitByte]

instance : DecidablePred IsDigitByte :=
  fun _ => decidable_of_iff _ isSome_digit?_iff

theorem digit?_of_not {b : UInt8} (h : ¬ IsDigitByte b) : digit? b.toNat = none := by
  rwa [← isSome_digit?_iff, Option.not_isSome_iff_eq_none] at h

theorem pair?_of_not_left {a : UInt8} (h : ¬ IsDigitByte a) (b : UInt8) : pair? a b = none := by
  simp only [pair?, digit?_of_not h]

theorem pair?_of_not_right (a : UInt8) {b : UInt8} (h : ¬ IsDigitByte b) : pair? a b = none := by
  simp only [pair?, digit?_of_not h]
  cases digit? a.toNat <;> rfl

/-- A byte is read exactly from its two digits. -/
theorem pair?_eq_some_iff {a b byte : UInt8} :
    pair? a b = some byte ↔ IsDigit (byte.toNat / 16) (Char.ofNat a.toNat) ∧
      IsDigit (byte.toNat % 16) (Char.ofNat b.toNat) := by
  constructor
  · intro h
    unfold pair? at h
    split at h
    · rename_i high low hhigh hlow
      have hhigh := isDigit_of_digit? hhigh
      have hlow := isDigit_of_digit? hlow
      have hbyte : byte.toNat = high * 16 + low := by
        have := hhigh.1
        have := hlow.1
        rw [← Option.some.inj h, UInt8.toNat_ofNat']
        omega
      have hdiv : byte.toNat / 16 = high := by
        have := hlow.1
        omega
      have hmod : byte.toNat % 16 = low := by
        have := hlow.1
        omega
      rw [hdiv, hmod]
      exact ⟨hhigh, hlow⟩
    · cases h
  · intro h
    have hpair := pair?_of_isDigit h.1 h.2
    rwa [toNat_ofNat_toNat, toNat_ofNat_toNat, UInt8.ofNat_toNat, UInt8.ofNat_toNat] at hpair

theorem pair?_eq_none_iff {a b : UInt8} :
    pair? a b = none ↔ ¬ (IsDigitByte a ∧ IsDigitByte b) := by
  constructor
  · intro h hboth
    obtain ⟨⟨high, hhigh⟩, low, hlow⟩ := hboth
    simp only [pair?, digit?_toNat_eq_some_iff.mpr hhigh, digit?_toNat_eq_some_iff.mpr hlow] at h
    cases h
  · intro h
    by_cases ha : IsDigitByte a
    · exact pair?_of_not_right a fun hb => h ⟨ha, hb⟩
    · exact pair?_of_not_left ha b

theorem Spells.isDigitByte {bs : Bytes} {digits : List Char} (h : Spells bs digits) :
    ∀ b ∈ Utf8.encodeChars digits, IsDigitByte b := by
  have hbyte {n : Nat} {c : Char} (h : IsDigit n c) : IsDigitByte (UInt8.ofNat c.toNat) :=
    ⟨n, digit?_toNat_eq_some_iff.mp (digit?_toNat_ofNat h)⟩
  induction h with
  | nil => exact fun b hb => absurd hb List.not_mem_nil
  | cons hhigh hlow _ ih =>
    rw [encodeChars_of_isDigit hhigh hlow]
    exact List.forall_mem_cons.mpr ⟨hbyte hhigh, List.forall_mem_cons.mpr ⟨hbyte hlow, ih⟩⟩

theorem Spells.not_mem {bs : Bytes} {digits : List Char} (h : Spells bs digits) {c : Char}
    (hc : digit? c.toNat = none) : c ∉ digits := by
  have hne {n : Nat} {d : Char} (hd : IsDigit n d) : c ≠ d := by
    rintro rfl
    rw [digit?_of_isDigit hd] at hc
    cases hc
  induction h with
  | nil => exact List.not_mem_nil
  | cons hhigh hlow _ ih =>
    exact List.not_mem_cons_of_ne_of_not_mem (hne hhigh)
      (List.not_mem_cons_of_ne_of_not_mem (hne hlow) ih)

/-! ## Leading digits -/

theorem decodeLeading_of_none {a b : UInt8} (h : pair? a b = none) (rest : Bytes) :
    decodeLeading (a :: b :: rest) = [] := by
  rw [decodeLeading, h]

theorem decodeLeading_of_spells {bs : Bytes} {digits : List Char} (h : Spells bs digits)
    (rest : Bytes) :
    decodeLeading (Utf8.encodeChars digits ++ rest) = bs ++ decodeLeading rest := by
  induction h with
  | nil => rfl
  | cons hhigh hlow _ ih =>
    rw [encodeChars_of_isDigit hhigh hlow, List.cons_append, List.cons_append, decodeLeading,
      pair?_of_isDigit hhigh hlow]
    exact congrArg _ ih

/-- What is read of leading digits is spelled by them. -/
theorem exists_spells_decodeLeading (bs : Bytes) :
    ∃ digits rest, Spells (decodeLeading bs) digits ∧ bs = Utf8.encodeChars digits ++ rest := by
  induction bs using decodeLeading.induct with
  | case1 a b rest byte hpair ih =>
    obtain ⟨digits, rest', hspells, hrest⟩ := ih
    obtain ⟨hhigh, hlow⟩ := pair?_eq_some_iff.mp hpair
    refine ⟨Char.ofNat a.toNat :: Char.ofNat b.toNat :: digits, rest', ?_, ?_⟩
    · rw [decodeLeading, hpair]
      exact .cons hhigh hlow hspells
    · rw [encodeChars_of_isDigit hhigh hlow, toNat_ofNat_toNat, toNat_ofNat_toNat,
        UInt8.ofNat_toNat, UInt8.ofNat_toNat, List.cons_append, List.cons_append, ← hrest]
  | case2 a b rest hpair =>
    rw [decodeLeading_of_none hpair]
    exact ⟨[], _, .nil, rfl⟩
  | case3 bs hshort =>
    rw [decodeLeading.eq_2 _ hshort]
    exact ⟨[], bs, .nil, rfl⟩

/-- Every two digits in front are read as one byte. -/
theorem le_length_decodeLeading {bs : Bytes} {k : Nat} (hle : 2 * k ≤ bs.length)
    (hdigits : ∀ b ∈ bs.take (2 * k), IsDigitByte b) : k ≤ (decodeLeading bs).length := by
  induction bs using decodeLeading.induct generalizing k with
  | case1 a b rest byte hpair ih =>
    rw [decodeLeading, hpair]
    cases k with
    | zero => exact Nat.zero_le _
    | succ k =>
      rw [Nat.mul_succ] at hle hdigits
      rw [List.take_succ_cons, List.take_succ_cons] at hdigits
      have hrest : 2 * k ≤ rest.length := by
        simp only [List.length_cons] at hle
        omega
      exact Nat.succ_le_succ (ih hrest fun c hc => hdigits c (.tail _ (.tail _ hc)))
  | case2 a b rest hpair =>
    cases k with
    | zero => exact Nat.zero_le _
    | succ k =>
      rw [Nat.mul_succ, List.take_succ_cons, List.take_succ_cons] at hdigits
      exact absurd ⟨hdigits a (.head _), hdigits b (.tail _ (.head _))⟩
        (pair?_eq_none_iff.mp hpair)
  | case3 bs hshort =>
    obtain _ | ⟨a, _ | ⟨b, rest⟩⟩ := bs
    · simp only [List.length_nil] at hle
      omega
    · simp only [List.length_singleton] at hle
      omega
    · exact absurd rfl (hshort a b rest)

/-- There are as many bytes as there can be. -/
theorem isGreatest_length_decodeLeading (bs : Bytes) :
    IsGreatest {k | 2 * k ≤ bs.length ∧ ∀ b ∈ bs.take (2 * k), IsDigitByte b}
      (decodeLeading bs).length := by
  obtain ⟨digits, rest, hspells, hbs⟩ := exists_spells_decodeLeading bs
  have hlen := length_of_spells hspells
  have hle : 2 * (decodeLeading bs).length ≤ bs.length := by
    have := congrArg List.length hbs
    rw [List.length_append] at this
    omega
  have htake : bs.take (2 * (decodeLeading bs).length) = Utf8.encodeChars digits := by
    rw [← hlen, hbs, List.take_left]
  refine ⟨⟨hle, ?_⟩, fun k hk => le_length_decodeLeading hk.1 hk.2⟩
  rw [htake]
  exact hspells.isDigitByte

/-! ## All digits -/

/-- What is wrong with digits that spell no bytes.  Their number is looked at first. -/
inductive Faulty (digits : List Char) : Fault → Prop
  | oddLength : (Utf8.encodeChars digits).length % 2 = 1 → Faulty digits .oddLength
  | invalidDigit {before after : Bytes} {b : UInt8} :
      (Utf8.encodeChars digits).length % 2 = 0 → Utf8.encodeChars digits = before ++ b :: after →
      (∀ c ∈ before, IsDigitByte c) → ¬ IsDigitByte b →
      Faulty digits (.invalidDigit b before.length)

theorem decodeFrom_of_not {before : Bytes} (hbefore : ∀ c ∈ before, IsDigitByte c) {b : UInt8}
    (hb : ¬ IsDigitByte b) {after : Bytes} (heven : (before ++ b :: after).length % 2 = 0)
    (index : Nat) :
    decodeFrom index (before ++ b :: after) = .error (.invalidDigit b (index + before.length)) := by
  induction before using List.twoStepInduction generalizing index with
  | nil =>
    obtain _ | ⟨c, after⟩ := after
    · simp at heven
    · rw [List.nil_append, decodeFrom, pair?_of_not_left hb c, digit?_of_not hb]
      rfl
  | singleton a =>
    obtain ⟨n, hn⟩ := hbefore a (.head _)
    rw [List.singleton_append, decodeFrom, pair?_of_not_right a hb,
      digit?_toNat_eq_some_iff.mpr hn]
    rfl
  | cons_cons a c before ih _ =>
    have ha := hbefore a (.head _)
    have hc := hbefore c (.tail _ (.head _))
    have hpair : pair? a c ≠ none := fun h => pair?_eq_none_iff.mp h ⟨ha, hc⟩
    obtain ⟨byte, hbyte⟩ := Option.ne_none_iff_exists'.mp hpair
    have heven' : (before ++ b :: after).length % 2 = 0 := by
      simp only [List.cons_append, List.length_cons] at heven
      omega
    have hrest := ih (fun d hd => hbefore d (.tail _ (.tail _ hd))) heven' (index + 2)
    rw [List.cons_append, List.cons_append, decodeFrom, hbyte]
    simp only [hrest, Except.map, List.length_cons]
    rw [Nat.add_assoc, Nat.add_comm 2]

theorem decode_of_faulty {digits : List Char} {f : Fault} (h : Faulty digits f) :
    decode (Utf8.encodeChars digits) = .error f := by
  cases h with
  | oddLength hodd => rw [decode, if_pos hodd]
  | @invalidDigit before after b heven hdigits hbefore hb =>
    rw [decode, if_neg (by omega), hdigits]
    rw [hdigits] at heven
    rw [decodeFrom_of_not hbefore hb heven, Nat.zero_add]

theorem encodeChars_injective {cs ds : List Char}
    (h : Utf8.encodeChars cs = Utf8.encodeChars ds) : cs = ds := by
  have hread := Utf8.decodeFrom_encodeChars 0 cs
  rw [h, Utf8.decodeFrom_encodeChars] at hread
  exact (Except.ok.inj hread).symm

/-- An even number of digits spells the bytes that are read of the leading ones. -/
theorem exists_spells {digits : List Char} (heven : (Utf8.encodeChars digits).length % 2 = 0)
    (hdigits : ∀ b ∈ Utf8.encodeChars digits, IsDigitByte b) : ∃ bs, Spells bs digits := by
  obtain ⟨leading, rest, hspells, hall⟩ := exists_spells_decodeLeading (Utf8.encodeChars digits)
  have hhalf : 2 * ((Utf8.encodeChars digits).length / 2) = (Utf8.encodeChars digits).length := by
    omega
  have hle := le_length_decodeLeading (Nat.le_of_eq hhalf)
    fun b hb => hdigits b (List.mem_of_mem_take hb)
  have hrest : rest = [] := by
    have hlen := congrArg List.length hall
    rw [List.length_append, length_of_spells hspells] at hlen
    exact List.eq_nil_of_length_eq_zero (by omega)
  rw [hrest, List.append_nil] at hall
  rw [encodeChars_injective hall]
  exact ⟨_, hspells⟩

theorem faulty_or_spells (digits : List Char) :
    (∃ f, Faulty digits f) ∨ ∃ bs, Spells bs digits := by
  rcases Nat.mod_two_eq_zero_or_one (Utf8.encodeChars digits).length with heven | hodd
  · cases hfind : (Utf8.encodeChars digits).find? (fun b => ¬ IsDigitByte b) with
    | none =>
      refine Or.inr (exists_spells heven fun b hb => ?_)
      simpa using List.find?_eq_none.mp hfind b hb
    | some b =>
      obtain ⟨hb, before, after, hall, hbefore⟩ := List.find?_eq_some_iff_append.mp hfind
      exact Or.inl ⟨_, .invalidDigit heven hall (by simpa using hbefore) (by simpa using hb)⟩
  · exact Or.inl ⟨_, .oddLength hodd⟩

theorem decode_eq_ok_iff {digits : List Char} {bs : Bytes} :
    decode (Utf8.encodeChars digits) = .ok bs ↔ Spells bs digits := by
  refine ⟨fun h => ?_, decode_of_spells⟩
  rcases faulty_or_spells digits with ⟨f, hf⟩ | ⟨bs', hspells⟩
  · rw [decode_of_faulty hf] at h
    cases h
  · rw [decode_of_spells hspells] at h
    cases h
    exact hspells

theorem decode_eq_error_iff {digits : List Char} {f : Fault} :
    decode (Utf8.encodeChars digits) = .error f ↔ Faulty digits f := by
  refine ⟨fun h => ?_, decode_of_faulty⟩
  rcases faulty_or_spells digits with ⟨f', hf⟩ | ⟨bs, hspells⟩
  · rw [decode_of_faulty hf] at h
    cases h
    exact hf
  · rw [decode_of_spells hspells] at h
    cases h

end Hex
end Mandate
