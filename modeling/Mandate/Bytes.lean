/-
Byte strings, and byte strings of one fixed length.

A key or an address is a byte string whose length is part of its type.  `FixedBytes.padLeft` is
the one way to force any byte string into such a type: the rightmost bytes are kept, as the low
bytes of a big-endian number are.
-/

namespace Mandate

abbrev Bytes := List UInt8

namespace Bytes

/-- Reads a byte string as a big-endian number. -/
def toNat (bs : Bytes) : Nat :=
  bs.foldl (fun n b => n * 256 + b.toNat) 0

/-- The low `width` bytes of a number, the highest first. -/
def ofNat : (width : Nat) → Nat → Bytes
  | 0, _ => []
  | width + 1, n => ofNat width (n / 256) ++ [UInt8.ofNat n]

theorem length_ofNat (width n : Nat) : (ofNat width n).length = width := by
  induction width generalizing n with
  | zero => rfl
  | succ width ih => simp [ofNat, ih]

end Bytes

structure FixedBytes (n : Nat) where
  bytes : Bytes
  length_eq : bytes.length = n
deriving DecidableEq

namespace FixedBytes

/-- The bytes themselves when there are exactly `n` of them. -/
def ofBytes? (n : Nat) (bs : Bytes) : Option (FixedBytes n) :=
  if h : bs.length = n then some ⟨bs, h⟩ else none

/-- Forces a byte string to `n` bytes: zeros in front of a short one, and only the last `n` bytes
of a long one. -/
def padLeft (n : Nat) (bs : Bytes) : FixedBytes n where
  bytes := List.replicate (n - bs.length) 0 ++ bs.drop (bs.length - n)
  length_eq := by
    simp only [List.length_append, List.length_replicate, List.length_drop]
    omega

def zero (n : Nat) : FixedBytes n :=
  ⟨List.replicate n 0, List.length_replicate⟩

def isZero {n : Nat} (bs : FixedBytes n) : Bool :=
  bs.bytes.all (· == 0)

theorem ext_bytes {n : Nat} {a b : FixedBytes n} (h : a.bytes = b.bytes) : a = b := by
  cases a
  cases b
  cases h
  rfl

theorem ofBytes?_bytes {n : Nat} (bs : FixedBytes n) : ofBytes? n bs.bytes = some bs := by
  simp [ofBytes?, bs.length_eq]

theorem padLeft_bytes {n : Nat} (bs : FixedBytes n) : padLeft n bs.bytes = bs := by
  apply ext_bytes
  simp [padLeft, bs.length_eq]

end FixedBytes

end Mandate
