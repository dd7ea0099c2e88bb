/-
String literals, up to the place where they may break.

A string is kept as it stands in the text, piece by piece, because what a piece means depends on
who reads it: a string whose value is needed must pair its surrogate escapes, and one that is passed
over need not.
-/
import Mandate.Json.Error
import Mandate.Text.Hex
import Mandate.Text.Utf8

namespace Mandate
namespace Json

/-- A character, or a UTF-16 code unit that is written as an escape with four digits. -/
inductive Piece
  | char (c : Char)
  | unit (n : Nat)
deriving DecidableEq, Repr

/-- A string literal: its pieces, and what keeps it from its closing quote, if anything does. -/
structure StringLiteral where
  pieces : List Piece
  fault : Option Fault
deriving DecidableEq, Repr

/-- Whether a code unit is the first half of a pair. -/
def isLeading (n : Nat) : Bool :=
  0xD800 ≤ n && n ≤ 0xDBFF

/-- Whether a code unit is the second half of a pair. -/
def isTrailing (n : Nat) : Bool :=
  0xDC00 ≤ n && n ≤ 0xDFFF

/-- The character that a pair of code units stands for. -/
def pairChar (leading trailing : Nat) : Char :=
  Char.ofNat (0x10000 + (leading - 0xD800) * 0x400 + (trailing - 0xDC00))

/-- The characters that the pieces spell.  Half a pair is malformed as soon as something other than
its other half follows; where nothing follows, the literal's own fault stands. -/
def spell (fault : Option Fault) : List Piece → Except Fault (List Char)
  | [] =>
    match fault with
    | none => .ok []
    | some f => .error f
  | .char c :: rest => (spell fault rest).map (c :: ·)
  | .unit n :: rest =>
    if isLeading n then
      match rest with
      | [] => .error (fault.getD .malformed)
      | .char _ :: _ => .error .malformed
      | .unit m :: rest =>
        if isTrailing m then (spell fault rest).map (pairChar n m :: ·) else .error .malformed
    else if isTrailing n then .error .malformed
    else (spell fault rest).map (Char.ofNat n :: ·)

/-- The character that an escape of one letter stands for. -/
def escaped? (c : Char) : Option Char :=
  if c = '"' then some '"'
  else if c = '\\' then some '\\'
  else if c = '/' then some '/'
  else if c = 'b' then some '\x08'
  else if c = 'f' then some '\x0c'
  else if c = 'n' then some '\n'
  else if c = 'r' then some '\r'
  else if c = 't' then some '\t'
  else none

/-- The code unit that four digits spell. -/
def codeUnit? (a b c d : Char) : Option Nat :=
  match Hex.digit? a.toNat, Hex.digit? b.toNat, Hex.digit? c.toNat, Hex.digit? d.toNat with
  | some a, some b, some c, some d => some (((a * 16 + b) * 16 + c) * 16 + d)
  | _, _, _, _ => none

namespace StringLiteral

/-- A literal that breaks off here.  Nothing is read after it. -/
def breakOff (f : Fault) : StringLiteral × List Char :=
  (⟨[], some f⟩, [])

/-- A literal with one more piece in front. -/
def withPiece (p : Piece) (s : StringLiteral × List Char) : StringLiteral × List Char :=
  (⟨p :: s.1.pieces, s.1.fault⟩, s.2)

/-- Reads a literal after its opening quote.  An escape with four digits counts as cut off if fewer
than four bytes are left. -/
def read : List Char → StringLiteral × List Char
  | [] => breakOff .cutOff
  | c :: rest =>
    if c = '"' then (⟨[], none⟩, rest)
    else if c = '\\' then
      match rest with
      | [] => breakOff .cutOff
      | e :: rest =>
        if e = 'u' then
          match rest with
          | p :: q :: r :: s :: rest =>
            match codeUnit? p q r s with
            | some n => withPiece (.unit n) (read rest)
            | none => breakOff .malformed
          | short => breakOff (if (Utf8.encodeChars short).length < 4 then .cutOff else .malformed)
        else
          match escaped? e with
          | some e => withPiece (.char e) (read rest)
          | none => breakOff .malformed
    else if c < ' ' then breakOff .malformed
    else withPiece (.char c) (read rest)

theorem read_length (cs : List Char) : (read cs).2.length ≤ cs.length := by
  fun_induction read cs <;> simp_all [breakOff, withPiece] <;> omega

/-- The text of a literal whose value is needed. -/
def text (s : StringLiteral) : Except Fault String :=
  (spell s.fault s.pieces).map String.ofList

/-- Passes over a literal whose value is not needed. -/
def skip (s : StringLiteral) : Except Fault Unit :=
  match s.fault with
  | none => .ok ()
  | some f => .error f

end StringLiteral

end Json
end Mandate
