/-
Hexadecimal digits in either case, and that the bytes they spell are read from them.
-/
import Mandate.Text.Hex
import Mandate.Text.Utf8.Lemmas

namespace Mandate
namespace Hex

/-- A digit of the value `n`, in either case. -/
def IsDigit (n : Nat) (c : Char) : Prop :=
  n < 16 ∧ (c = Nat.digitChar n ∨ c = (Nat.digitChar n).toUpper)

/-- Two digits for each byte, each of them in either case. -/
inductive Spells : Bytes → List Char → Prop
  | nil : Spells [] []
  | cons {b : UInt8} {bs : Bytes} {high low : Char} {digits : List Char} :
      IsDigit (b.toNat / 16) high → IsDigit (b.toNat % 16) low → Spells bs digits →
      Spells (b :: bs) (high :: low :: digits)

theorem digit?_of_isDigit {n : Nat} {c : Char} (h : IsDigit n c) : digit? c.toNat = some n := by
  have each : ∀ i : Fin 16, digit? (Nat.digitChar i.val).toNat = some i.val ∧
      digit? (Nat.digitChar i.val).toUpper.toNat = some i.val := by decide
  obtain ⟨hn, rfl | rfl⟩ := h
  · exact (each ⟨n, hn⟩).1
  · exact (each ⟨n, hn⟩).2

theorem toNat_lt_of_isDigit {n : Nat} {c : Char} (h : IsDigit n c) : c.toNat < 128 := by
  have each : ∀ i : Fin 16, (Nat.digitChar i.val).toNat < 128 ∧
      (Nat.digitChar i.val).toUpper.toNat < 128 := by decide
  obtain ⟨hn, rfl | rfl⟩ := h
  · exact (each ⟨n, hn⟩).1
  · exact (each ⟨n, hn⟩).2

theorem digit?_toNat_ofNat {n : Nat} {c : Char} (h : IsDigit n c) :
    digit? (UInt8.ofNat c.toNat).toNat = some n := by
  have hlt := toNat_lt_of_isDigit h
  have hbyte : (UInt8.ofNat c.toNat).toNat = c.toNat := by
    rw [UInt8.toNat_ofNat']
    omega
  rw [hbyte, digit?_of_isDigit h]

theorem pair?_of_isDigit {b : UInt8} {high low : Char} (hhigh : IsDigit (b.toNat / 16) high)
    (hlow : IsDigit (b.toNat % 16) low) :
    pair? (UInt8.ofNat high.toNat) (UInt8.ofNat low.toNat) = some b := by
  have hvalue : b.toNat / 16 * 16 + b.toNat % 16 = b.toNat := Nat.div_add_mod' _ _
  simp only [pair?, digit?_toNat_ofNat hhigh, digit?_toNat_ofNat hlow]
  rw [hvalue, UInt8.ofNat_toNat]

theorem encodeChars_of_isDigit {m n : Nat} {high low : Char} (hhigh : IsDigit m high)
    (hlow : IsDigit n low) (digits : List Char) :
    Utf8.encodeChars (high :: low :: digits) =
      UInt8.ofNat high.toNat :: UInt8.ofNat low.toNat :: Utf8.encodeChars digits := by
  rw [Utf8.encodeChars_cons, Utf8.encodeChars_cons,
    Utf8.utf8EncodeChar_ascii (toNat_lt_of_isDigit hhigh),
    Utf8.utf8EncodeChar_ascii (toNat_lt_of_isDigit hlow)]
  rfl

theorem length_of_spells {bs : Bytes} {digits : List Char} (h : Spells bs digits) :
    (Utf8.encodeChars digits).length = 2 * bs.length := by
  induction h with
  | nil => rfl
  | cons hhigh hlow _ ih =>
    rw [encodeChars_of_isDigit hhigh hlow, List.length_cons, List.length_cons, List.length_cons, ih]
    omega

theorem decode_of_spells {bs : Bytes} {digits : List Char} (h : Spells bs digits) :
    decode (Utf8.encodeChars digits) = .ok bs := by
  have heven : ¬ (Utf8.encodeChars digits).length % 2 = 1 := by
    rw [length_of_spells h]
    omega
  have hfrom (index : Nat) : decodeFrom index (Utf8.encodeChars digits) = .ok bs := by
    clear heven
    induction h generalizing index with
    | nil => rfl
    | cons hhigh hlow _ ih =>
      rw [encodeChars_of_isDigit hhigh hlow, decodeFrom, pair?_of_isDigit hhigh hlow]
      simp only [ih]
      rfl
  rw [decode, if_neg heven, hfrom]

theorem spells_encodeChars (bs : Bytes) : Spells bs (encodeChars bs) := by
  induction bs with
  | nil => exact .nil
  | cons b bs ih =>
    have hhigh : b.toNat / 16 < 16 := by
      have := b.toNat_lt
      omega
    have hlow : b.toNat % 16 < 16 := Nat.mod_lt _ (by decide)
    exact .cons ⟨hhigh, Or.inl rfl⟩ ⟨hlow, Or.inl rfl⟩ ih

/-- The digits that are written are the lowercase ones. -/
theorem encodeChars_of_spells {bs : Bytes} {digits : List Char} (h : Spells bs digits) :
    encodeChars bs = digits.map Char.toLower := by
  have each : ∀ i : Fin 16, (Nat.digitChar i.val).toLower = Nat.digitChar i.val ∧
      (Nat.digitChar i.val).toUpper.toLower = Nat.digitChar i.val := by decide
  have hlower {n : Nat} {c : Char} (h : IsDigit n c) : c.toLower = Nat.digitChar n := by
    obtain ⟨hn, rfl | rfl⟩ := h
    · exact (each ⟨n, hn⟩).1
    · exact (each ⟨n, hn⟩).2
  induction h with
  | nil => rfl
  | @cons b bs high low digits hhigh hlow _ ih =>
    rw [List.map_cons, List.map_cons, hlower hhigh, hlower hlow, ← ih]
    rfl

end Hex
end Mandate
