/-
Hexadecimal text, as bytes of digits.

Reading works on the UTF-8 bytes of a text, so a fault names the offending byte and its index.  An
odd number of digits is reported before any digit is looked at.
-/
import Mandate.Bytes
import Mandate.Text.Quoted

namespace Mandate
namespace Hex

/-- Why digits do not spell bytes. -/
inductive Fault
  | oddLength
  | invalidDigit (byte : UInt8) (index : Nat)
deriving DecidableEq, Repr

/-- The offending byte is shown as the character with its number. -/
def Fault.message : Fault → String
  | oddLength => "Odd number of digits"
  | invalidDigit byte index =>
    "Invalid character " ++ Quoted.char (Char.ofNat byte.toNat) ++ " at position " ++
      toString index

/-- The value of the digit with this character code, in either case. -/
def digit? (code : Nat) : Option Nat :=
  if 48 ≤ code ∧ code ≤ 57 then some (code - 48)
  else if 65 ≤ code ∧ code ≤ 70 then some (code - 55)
  else if 97 ≤ code ∧ code ≤ 102 then some (code - 87)
  else none

/-- The byte that two digits spell. -/
def pair? (high low : UInt8) : Option UInt8 :=
  match digit? high.toNat, digit? low.toNat with
  | some high, some low => some (UInt8.ofNat (high * 16 + low))
  | _, _ => none

/-- Reads pairs of digits; `index` is how many digits came before them. -/
def decodeFrom (index : Nat) : Bytes → Except Fault Bytes
  | [] => .ok []
  | [_] => .error .oddLength
  | a :: b :: rest =>
    match pair? a b with
    | some byte => (decodeFrom (index + 2) rest).map (byte :: ·)
    | none =>
      if (digit? a.toNat).isNone then .error (.invalidDigit a index)
      else .error (.invalidDigit b (index + 1))

def decode (digits : Bytes) : Except Fault Bytes :=
  if digits.length % 2 = 1 then .error .oddLength else decodeFrom 0 digits

/-- The bytes that the leading pairs of digits spell, up to the first pair that is none. -/
def decodeLeading : Bytes → Bytes
  | a :: b :: rest =>
    match pair? a b with
    | some byte => byte :: decodeLeading rest
    | none => []
  | _ => []

/-- The two lowercase digits of a byte. -/
def encodeByte (b : UInt8) : List Char :=
  [Nat.digitChar (b.toNat / 16), Nat.digitChar (b.toNat % 16)]

def encodeChars (bs : Bytes) : List Char :=
  bs.flatMap encodeByte

def encode (bs : Bytes) : String :=
  String.ofList (encodeChars bs)

end Hex
end Mandate
