/-
UTF-8, read byte by byte.

A first byte announces how many bytes continue the character and which range the next one must lie
in; the narrowed ranges are what keeps out overlong forms, surrogates and code points above
10FFFF.  A text that is not UTF-8 is refused with the length of its well-formed beginning and with
the length of the ill-formed part after it, or with the fact that the bytes end inside a character.
-/
import Mandate.Bytes

namespace Mandate
namespace Utf8

def encodeChars (cs : List Char) : Bytes :=
  cs.flatMap String.utf8EncodeChar

def encode (s : String) : Bytes :=
  encodeChars s.toList

/-- Why bytes are not UTF-8: the well-formed beginning has `validUpTo` bytes, and the ill-formed
part after it has `illFormed` bytes, or is a character that the end of the bytes cuts off. -/
structure Fault where
  validUpTo : Nat
  illFormed : Option Nat
deriving DecidableEq, Repr

def Fault.message (f : Fault) : String :=
  match f.illFormed with
  | some n =>
    "invalid utf-8 sequence of " ++ toString n ++ " bytes from index " ++ toString f.validUpTo
  | none => "incomplete utf-8 byte sequence from index " ++ toString f.validUpTo

/-- What a first byte announces: its own share of the code point, how many bytes continue the
character, and the range in which the first of these has to lie. -/
structure Lead where
  bits : Nat
  more : Nat
  low : Nat
  high : Nat

/-- The announcement of a first byte; none starts with a continuation byte, with C0 or C1, whose
characters have shorter forms, or with a byte above F4. -/
def lead? (b : UInt8) : Option Lead :=
  let n := b.toNat
  if n < 0x80 then some ⟨n, 0, 0x80, 0xBF⟩
  else if n < 0xC2 then none
  else if n < 0xE0 then some ⟨n - 0xC0, 1, 0x80, 0xBF⟩
  else if n = 0xE0 then some ⟨0, 2, 0xA0, 0xBF⟩
  else if n = 0xED then some ⟨0xD, 2, 0x80, 0x9F⟩
  else if n < 0xF0 then some ⟨n - 0xE0, 2, 0x80, 0xBF⟩
  else if n = 0xF0 then some ⟨0, 3, 0x90, 0xBF⟩
  else if n < 0xF4 then some ⟨n - 0xF0, 3, 0x80, 0xBF⟩
  else if n = 0xF4 then some ⟨4, 3, 0x80, 0x8F⟩
  else none

inductive Step
  | char (c : Char) (rest : Bytes)
  | illFormed (length : Nat)
  | incomplete

/-- Reads the `more` bytes that are still missing of a character of which `seen` bytes, worth
`code`, have been read.  Only the first of them has a range of its own. -/
def continueChar (seen code low high : Nat) : (more : Nat) → Bytes → Step
  | 0, rest => .char (Char.ofNat code) rest
  | _ + 1, [] => .incomplete
  | more + 1, b :: rest =>
    if low ≤ b.toNat ∧ b.toNat ≤ high then
      continueChar (seen + 1) (code * 64 + b.toNat % 64) 0x80 0xBF more rest
    else .illFormed seen

/-- Reads one character that starts with `b`. -/
def next (b : UInt8) (rest : Bytes) : Step :=
  match lead? b with
  | none => .illFormed 1
  | some l => continueChar 1 l.bits l.low l.high l.more rest

theorem continueChar_length {seen code low high more : Nat} {bs rest : Bytes} {c : Char}
    (h : continueChar seen code low high more bs = .char c rest) :
    rest.length + more = bs.length := by
  induction more generalizing seen code low high bs with
  | zero =>
    simp only [continueChar, Step.char.injEq] at h
    simp [h.2]
  | succ more ih =>
    cases bs with
    | nil => simp [continueChar] at h
    | cons b bs =>
      rw [continueChar] at h
      split at h
      · have := ih h
        simp only [List.length_cons]
        omega
      · simp at h

theorem next_length {b : UInt8} {bs rest : Bytes} {c : Char} (h : next b bs = .char c rest) :
    rest.length ≤ bs.length := by
  rw [next] at h
  split at h
  · simp at h
  · have := continueChar_length h
    omega

/-- Reads all the bytes as characters; `index` is how many bytes came before them. -/
def decodeFrom (index : Nat) : Bytes → Except Fault (List Char)
  | [] => .ok []
  | b :: bs =>
    match h : next b bs with
    | .char c rest =>
      have : rest.length ≤ bs.length := next_length h
      (decodeFrom (index + c.utf8Size) rest).map (c :: ·)
    | .illFormed n => .error ⟨index, some n⟩
    | .incomplete => .error ⟨index, none⟩
termination_by bs => bs.length

def decode (bs : Bytes) : Except Fault String :=
  (decodeFrom 0 bs).map String.ofList

end Utf8
end Mandate
