/-
Number literals and the numbers they are read as.

An integer literal that fits in 64 bits, signed or unsigned, is read exactly.  Every other literal
is read as a floating-point number: its leading digits are gathered into 64 bits, what does not fit
is dropped, and the result is scaled by a power of ten.
-/
import Mandate.Json.Error

namespace Mandate
namespace Json

/-- A number literal by its parts, the digits as they stand in the text.  The fraction is empty
where there is no point. -/
structure NumberLiteral where
  negative : Bool
  whole : List Char
  fraction : List Char
  exponent : Option (Bool × List Char)
deriving DecidableEq, Repr

/-- An integer of 64 bits, or a floating-point number. -/
inductive Number
  | integer (n : Int)
  | real (x : Float)

def digitValue (c : Char) : Nat :=
  c.toNat - 48

/-- The number that decimal digits spell. -/
def digitsValue (ds : List Char) : Nat :=
  ds.foldl (fun n c => n * 10 + digitValue c) 0

/-- Appends digits to a number as long as it stays below `UInt64.size`: the number, and the digits that
are left. -/
def absorb (n : Nat) : List Char → Nat × List Char
  | [] => (n, [])
  | c :: rest =>
    let next := n * 10 + digitValue c
    if next < UInt64.size then absorb next rest else (n, c :: rest)

/-- A power of ten between `10 ^ 0` and `10 ^ 308`, rounded to double precision. -/
def powerOfTen (n : Nat) : Float :=
  Float.ofScientific 1 false n

/-- Multiplies by a power of ten; a number too large for double precision is refused.  Far below one
the scaling is done in steps. -/
def scale (x : Float) (exponent : Int) : Except Fault Float :=
  if 0 ≤ exponent then
    if exponent ≤ 308 then
      let y := x * powerOfTen exponent.toNat
      if y.isInf then .error .malformed else .ok y
    else if x == 0 then .ok x
    else .error .malformed
  else if -308 ≤ exponent then .ok (x / powerOfTen (-exponent).toNat)
  else if x == 0 then .ok x
  else scale (x / powerOfTen 308) (exponent + 308)
termination_by exponent.natAbs
decreasing_by omega

namespace NumberLiteral

/-- Whether an exponent is negative, and the text after its sign. -/
def readSign : List Char → Bool × List Char
  | [] => (false, [])
  | c :: rest =>
    if c = '-' then (true, rest) else if c = '+' then (false, rest) else (false, c :: rest)

/-- Goes on after the fraction. -/
def readExponent (negative : Bool) (whole fraction : List Char) :
    List Char → Except Fault (NumberLiteral × List Char)
  | [] => .ok (⟨negative, whole, fraction, none⟩, [])
  | c :: rest =>
    if c = 'e' ∨ c = 'E' then
      let sign := readSign rest
      let ds := sign.2.takeWhile Char.isDigit
      let rest := sign.2.dropWhile Char.isDigit
      if ds.isEmpty then .error (.before rest)
      else .ok (⟨negative, whole, fraction, some (sign.1, ds)⟩, rest)
    else .ok (⟨negative, whole, fraction, none⟩, c :: rest)

/-- Goes on after the whole digits. -/
def readFraction (negative : Bool) (whole : List Char) :
    List Char → Except Fault (NumberLiteral × List Char)
  | [] => readExponent negative whole [] []
  | c :: rest =>
    if c = '.' then
      let ds := rest.takeWhile Char.isDigit
      let rest := rest.dropWhile Char.isDigit
      if ds.isEmpty then .error (.before rest) else readExponent negative whole ds rest
    else readExponent negative whole [] (c :: rest)

/-- Reads a literal after its sign, and leaves what follows.  Only zero starts with a zero. -/
def read (negative : Bool) (cs : List Char) : Except Fault (NumberLiteral × List Char) :=
  let rest := cs.dropWhile Char.isDigit
  match cs.takeWhile Char.isDigit with
  | [] => .error (.before rest)
  | '0' :: _ :: _ => .error .malformed
  | whole => readFraction negative whole rest

theorem dropWhile_length (cs : List Char) :
    (cs.dropWhile Char.isDigit).length ≤ cs.length :=
  (List.dropWhile_sublist _).length_le

theorem readSign_length (cs : List Char) : (readSign cs).2.length ≤ cs.length := by
  cases cs with
  | nil => exact Nat.le_refl _
  | cons c cs =>
    simp only [readSign]
    repeat' split
    all_goals simp

theorem readExponent_length {negative : Bool} {whole fraction cs rest : List Char}
    {l : NumberLiteral} (h : readExponent negative whole fraction cs = .ok (l, rest)) :
    rest.length ≤ cs.length := by
  cases cs with
  | nil =>
    simp only [readExponent, Except.ok.injEq, Prod.mk.injEq] at h
    simp [← h.2]
  | cons c cs =>
    simp only [readExponent] at h
    split at h
    · split at h
      · simp at h
      · simp only [Except.ok.injEq, Prod.mk.injEq] at h
        have := dropWhile_length (readSign cs).2
        have := readSign_length cs
        rw [← h.2, List.length_cons]
        omega
    · simp only [Except.ok.injEq, Prod.mk.injEq] at h
      simp [← h.2]

theorem readFraction_length {negative : Bool} {whole cs rest : List Char} {l : NumberLiteral}
    (h : readFraction negative whole cs = .ok (l, rest)) : rest.length ≤ cs.length := by
  cases cs with
  | nil => exact readExponent_length h
  | cons c cs =>
    simp only [readFraction] at h
    split at h
    · split at h
      · simp at h
      · have := readExponent_length h
        have := dropWhile_length cs
        simp only [List.length_cons]
        omega
    · exact readExponent_length h

/-- A literal takes at least one character. -/
theorem read_length {negative : Bool} {cs rest : List Char} {l : NumberLiteral}
    (h : read negative cs = .ok (l, rest)) : rest.length < cs.length := by
  have split_length : (cs.takeWhile Char.isDigit).length + (cs.dropWhile Char.isDigit).length =
      cs.length := by
    rw [← List.length_append, List.takeWhile_append_dropWhile]
  simp only [read] at h
  split at h
  · simp at h
  · simp at h
  · rename_i whole hnil hzero
    have := readFraction_length h
    have : 0 < (cs.takeWhile Char.isDigit).length := List.length_pos_iff.mpr hnil
    omega

/-- The exponent of a literal, unless it is too large to matter: then only its sign counts. -/
def exponent? (l : NumberLiteral) : Option Int :=
  match l.exponent with
  | none => some 0
  | some (negative, ds) =>
    let n := digitsValue ds
    if n < 1 <<< 31 then some (if negative then -n else n) else none

/-- The sign of a literal applied to a magnitude. -/
def signed (l : NumberLiteral) (x : Float) : Float :=
  if l.negative then -x else x

/-- A literal as a floating-point number. -/
def real (l : NumberLiteral) : Except Fault Float :=
  let (head, droppedWhole) := absorb 0 l.whole
  let (significand, droppedFraction) := absorb head l.fraction
  let shift : Int :=
    droppedWhole.length - ((l.fraction.length - droppedFraction.length : Nat) : Int)
  match l.exponent? with
  | some e => (scale (UInt64.ofNat significand).toFloat (shift + e)).map l.signed
  | none =>
    if significand ≠ 0 ∧ (l.exponent.map Prod.fst) = some false then .error .malformed
    else .ok (l.signed 0)

/-- Whether a literal has neither fraction nor exponent. -/
def isIntegral (l : NumberLiteral) : Bool :=
  l.fraction.isEmpty && l.exponent.isNone

/-- The number that a literal is read as.  Minus zero is not an integer. -/
def value (l : NumberLiteral) : Except Fault Number :=
  let n := digitsValue l.whole
  if l.isIntegral ∧ ¬ l.negative ∧ n < UInt64.size then .ok (.integer n)
  else if l.isIntegral ∧ l.negative ∧ 0 < n ∧ n ≤ 1 <<< 63 then .ok (.integer (-n))
  else l.real.map .real

end NumberLiteral

end Json
end Mandate
