/-
Lengths and counts: LEB128 numbers of at most 64 bits.

A number is written as its base-128 digits, the lowest first, every byte but the last with its high
bit set, and in as few bytes as possible.  Reading is more generous: digits may be followed by
zeros, as long as the number has at most ten bytes.
-/
import Mandate.Wire.Decoder

namespace Mandate
namespace Length

/-- The shortest form of a number. -/
def encode (n : Nat) : Bytes :=
  if n < 128 then [UInt8.ofNat n]
  else UInt8.ofNat (n % 128 + 128) :: encode (n / 128)
termination_by n
decreasing_by omega

/-- Passes over the rest of a number that is too large, up to its last byte. -/
def skipOverlong : Decoder WireError Nat
  | [] => (.error .lengthCutOff, [])
  | b :: rest => if b < 128 then (.error .lengthOverflow, rest) else skipOverlong rest

/-- Goes on with a number of which `index` bytes, worth `value`, have been read.  The tenth byte
has room for one more bit, so only 0 and 1 can stand there. -/
def continueFrom (index value : Nat) : Decoder WireError Nat
  | [] => (.error .lengthCutOff, [])
  | b :: rest =>
    if index = 9 ∧ 1 < b then skipOverlong (b :: rest)
    else
      let value := value + (b.toNat % 128) <<< (7 * index)
      if b < 128 then (.ok value, rest) else continueFrom (index + 1) value rest

def decode : Decoder WireError Nat :=
  continueFrom 0 0

end Length
end Mandate
