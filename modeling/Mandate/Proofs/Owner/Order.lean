/-
The order of owners, in all the terms in which it can be read.

Owners of different kinds are in the order of these kinds, which is that of the tags in their records,
and owners of one kind in that of their bytes.  The bytes of a name are in the order of its code
points, and those of a key in the order of the number that they are and of the digits of its text.
So it comes to the same to compare what is printed, or for keys what is written, and owners that
come out equal are equal.
-/
import Mandate.Owner.Order
import Mandate.Proofs.Text.Order
import Mathlib

namespace Mandate

/-- The code points of a text. -/
def codePoints (s : String) : List Nat :=
  s.toList.map Char.toNat

theorem Utf8.encode_injective {s t : String} (h : encode s = encode t) : s = t := by
  have hread := decode_encode s
  rw [h, decode_encode] at hread
  exact (Except.ok.inj hread).symm

theorem then_of_ne {o : Ordering} (h : o ≠ .eq) (o' : Ordering) : o.then o' = o := by
  cases o with
  | lt => rfl
  | eq => exact absurd rfl h
  | gt => rfl

/-! ## Schemes -/

theorem KeyKind.compare_self (k : KeyKind) : compare k k = .eq := by
  cases k <;> rfl

theorem Scheme.tag_injective {s t : Scheme} (h : s.tag = t.tag) : s = t := by
  have hread := ofTag_tag s
  rw [h, ofTag_tag] at hread
  exact (Except.ok.inj hread).symm

theorem Scheme.compare_tag_ne {s t : Scheme} (h : s ≠ t) : compare s.tag t.tag ≠ .eq := fun heq =>
  h (tag_injective (Std.compare_eq_iff_eq.mp heq))

/-- The tags of the two kinds of keys are in the order of the kinds. -/
theorem Scheme.compare_tag_key (k l : KeyKind) :
    compare (key k).tag (key l).tag = compare k l := by
  cases k <;> cases l <;> rfl

/-! ## Names -/

namespace Name

theorem compare_codePoints (a b : Name) :
    compare (codePoints a.text) (codePoints b.text) = compare a b :=
  (Utf8.compare_encode a.text b.text).symm

theorem compare_eq_iff {a b : Name} : compare a b = .eq ↔ a = b := by
  obtain ⟨s⟩ := a
  obtain ⟨t⟩ := b
  show compare (Utf8.encode s) (Utf8.encode t) = .eq ↔ _
  rw [Std.compare_eq_iff_eq, Name.mk.injEq]
  exact ⟨Utf8.encode_injective, congrArg Utf8.encode⟩

end Name

/-! ## Keys -/

namespace Key

variable {k : KeyKind}

theorem codePoints_toText (key : Key k) :
    codePoints key.toText = codePoints hexMark ++ (Hex.encodeChars key.bytes).map Char.toNat := by
  rw [codePoints, toText, Hex.encode, String.toList_append, String.toList_ofList, List.map_append]
  rfl

theorem compare_codePoints (a b : Key k) :
    compare (codePoints a.toText) (codePoints b.toText) = compare a b := by
  rw [codePoints_toText, codePoints_toText, compare_append_left, Hex.compare_encodeChars]
  rfl

/-- Keys of one kind are written with the same length in front. -/
theorem compare_encode (a b : Key k) : compare (encode a) (encode b) = compare a b := by
  rw [encode, encode, Wire.encodeByteString, Wire.encodeByteString, a.length_eq, b.length_eq,
    compare_append_left]
  rfl

theorem compare_toNat (a b : Key k) : compare a.bytes.toNat b.bytes.toNat = compare a b :=
  Bytes.compare_toNat (a.length_eq.trans b.length_eq.symm)

theorem compare_eq_iff {a b : Key k} : compare a b = .eq ↔ a = b := by
  show compare a.bytes b.bytes = .eq ↔ _
  rw [Std.compare_eq_iff_eq]
  exact ⟨FixedBytes.ext_bytes, congrArg FixedBytes.bytes⟩

end Key

/-! ## Owners -/

namespace Owner

theorem compare_name (a b : Name) : compare (name a) (name b) = compare a b :=
  rfl

theorem compare_key (k : KeyKind) (a b : Key k) : compare (key k a) (key k b) = compare a b := by
  show (compare k k).then (compare a b) = compare a b
  rw [KeyKind.compare_self, Ordering.eq_then]

/-- Owners of different schemes are in the order of the tags, whatever is in them. -/
theorem compare_of_scheme_ne {a b : Owner} (h : a.scheme ≠ b.scheme) :
    compare a b = compare a.scheme.tag b.scheme.tag := by
  cases a with
  | name n =>
    cases b with
    | name m => exact absurd rfl h
    | key l value => cases l <;> rfl
  | key k value =>
    cases b with
    | name m => cases k <;> rfl
    | key l value' =>
      show (compare k l).then (compare value.bytes value'.bytes) = _
      rw [← Scheme.compare_tag_key]
      exact then_of_ne (Scheme.compare_tag_ne h) _

/-- Inside one scheme the printed texts decide as the bytes do. -/
theorem compare_codePoints_of_scheme {a b : Owner} (h : a.scheme = b.scheme) :
    compare (codePoints a.toText) (codePoints b.toText) = compare a b := by
  cases a with
  | name n =>
    cases b with
    | name m => rw [compare_name, ← Name.compare_codePoints]; rfl
    | key l value => cases h
  | key k value =>
    cases b with
    | name m => cases h
    | key l value' =>
      obtain rfl : k = l := Scheme.key.inj h
      rw [compare_key, ← Key.compare_codePoints]
      rfl

theorem compare_eq_then (a b : Owner) :
    compare a b = (compare a.scheme.tag b.scheme.tag).then
      (compare (codePoints a.toText) (codePoints b.toText)) := by
  by_cases h : a.scheme = b.scheme
  · rw [compare_codePoints_of_scheme h, h, Std.ReflOrd.compare_self, Ordering.eq_then]
  · rw [compare_of_scheme_ne h, then_of_ne (Scheme.compare_tag_ne h)]

theorem compare_eq_iff {a b : Owner} : compare a b = .eq ↔ a = b := by
  constructor
  · intro h
    have hscheme : a.scheme = b.scheme := by
      rw [compare_eq_then, Ordering.then_eq_eq] at h
      exact Scheme.tag_injective (Std.compare_eq_iff_eq.mp h.1)
    cases a with
    | name n =>
      cases b with
      | name m => rw [Name.compare_eq_iff.mp ((compare_name n m).symm.trans h)]
      | key l value => cases hscheme
    | key k value =>
      cases b with
      | name m => cases hscheme
      | key l value' =>
        obtain rfl : k = l := Scheme.key.inj hscheme
        rw [Key.compare_eq_iff.mp ((compare_key k value value').symm.trans h)]
  · rintro rfl
    rw [compare_eq_then, Std.ReflOrd.compare_self, Std.ReflOrd.compare_self]
    rfl

/-- Owners are in the order of their tags and then of the code points that are printed.  For keys of
one kind this is the order of the keys, of their bytes, of their text, of their records and of their
numbers, and for names that of the names, of their bytes and of their text.  Only equal ones are
equal in it. -/
theorem order_agrees :
    (∀ a b : Owner, compare a b = (compare a.scheme.tag b.scheme.tag).then
      (compare (codePoints a.toText) (codePoints b.toText))) ∧
    (∀ (k : KeyKind) (a b : Key k),
      compare (key k a) (key k b) = compare a b ∧
      compare a.bytes b.bytes = compare a b ∧
      compare (codePoints a.toText) (codePoints b.toText) = compare a b ∧
      compare (Key.encode a) (Key.encode b) = compare a b ∧
      compare a.bytes.toNat b.bytes.toNat = compare a b) ∧
    (∀ a b : Name,
      compare (name a) (name b) = compare a b ∧
      compare (Utf8.encode a.text) (Utf8.encode b.text) = compare a b ∧
      compare (codePoints a.text) (codePoints b.text) = compare a b) ∧
    (∀ a b : Owner, compare a b = .eq ↔ a = b) ∧
    (∀ (k : KeyKind) (a b : Key k), compare a b = .eq ↔ a = b) ∧
    ∀ a b : Name, compare a b = .eq ↔ a = b :=
  ⟨compare_eq_then,
    fun k a b => ⟨compare_key k a b, rfl, Key.compare_codePoints a b, Key.compare_encode a b,
      Key.compare_toNat a b⟩,
    fun a b => ⟨compare_name a b, rfl, Name.compare_codePoints a b⟩,
    fun _ _ => compare_eq_iff, fun _ _ _ => Key.compare_eq_iff, fun _ _ => Name.compare_eq_iff⟩

end Owner
end Mandate
