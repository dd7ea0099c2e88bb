/-
The shortest decimal text that reads back as a given binary floating-point number.

A positive number is `m * 2 ^ q`.  The decimals that read back as it fill an interval around it,
with its ends when `m` is even.  The coarsest grid of multiples of a power of ten that has a point
in the interval gives the fewest digits, and of its points the one nearest to the number is taken.
-/

namespace Mandate
namespace Decimal

/-- A positive binary number `mantissa * 2 ^ exponent` and whether the numbers below it lie half as
far apart as those above it, as they do below a power of two. -/
structure Binary where
  mantissa : Nat
  exponent : Int
  narrowBelow : Bool
deriving DecidableEq

/-- A decimal number `digits * 10 ^ exponent`. -/
structure Digits where
  digits : Nat
  exponent : Int
deriving DecidableEq

/-- The nearest point to `x` on the grid of multiples of `10 ^ k` that reads back as `x`, as its
multiple, if there is one; of two equally near points the even one.  All comparisons are made in
units of `2 ^ (x.exponent - 2)` and `10 ^ k`, cleared of fractions. -/
def gridPoint? (x : Binary) (k : Int) : Option Nat :=
  let q := x.exponent - 2
  let tens := Nat.pow 10 k.toNat <<< (-q).toNat
  let units := Nat.pow 10 (-k).toNat <<< q.toNat
  let value := 4 * x.mantissa * units
  let low := (4 * x.mantissa - (if x.narrowBelow then 1 else 2)) * units
  let high := (4 * x.mantissa + 2) * units
  let fits (d : Nat) : Bool :=
    0 < d && (if x.mantissa % 2 = 0 then low ≤ d * tens && d * tens ≤ high
      else low < d * tens && d * tens < high)
  let below := value / tens
  let above := below + 1
  match fits below, fits above with
  | true, true =>
    if value - below * tens < above * tens - value then some below
    else if above * tens - value < value - below * tens then some above
    else if below % 2 = 0 then some below else some above
  | true, false => some below
  | false, true => some above
  | false, false => none

/-- Tries the grids of `10 ^ k` and of `steps` finer ones. -/
def search (x : Binary) : (steps : Nat) → (k : Int) → Digits
  | 0, k => ⟨x.mantissa, k⟩
  | steps + 1, k =>
    match gridPoint? x k with
    | some d => ⟨d, k⟩
    | none => search x steps (k - 1)

/-- The fewest digits that read back.  Numbers of double precision lie below `10 ^ 309` and are
multiples of `2 ^ -1074`. -/
def shortest (x : Binary) : Digits :=
  search x 640 309

/-- The powers of ten of the first digit between which a number is written out in full. -/
structure Layout where
  leastPositional : Int
  greatestPositional : Int

/-- A decimal number in the given layout.  A number written out in full has at least one digit
after its point; any other has an exponent with its sign. -/
def Layout.write (layout : Layout) (d : Digits) : List Char :=
  let ds := Nat.toDigits 10 d.digits
  let leading := d.exponent + ds.length - 1
  if layout.leastPositional ≤ leading ∧ leading ≤ layout.greatestPositional then
    if leading < 0 then
      ['0', '.'] ++ List.replicate (-leading - 1).toNat '0' ++ ds
    else
      let whole := leading.toNat + 1
      if ds.length ≤ whole then ds ++ List.replicate (whole - ds.length) '0' ++ ['.', '0']
      else ds.take whole ++ ['.'] ++ ds.drop whole
  else
    let fraction := if ds.length ≤ 1 then [] else '.' :: ds.drop 1
    ds.take 1 ++ fraction ++ ['e', if leading < 0 then '-' else '+'] ++
      Nat.toDigits 10 leading.natAbs

/-- Floating-point numbers in messages are written out from `0.00001` to below `10 ^ 16`. -/
def messageLayout : Layout :=
  ⟨-5, 15⟩

/-- A floating-point number as messages show it. -/
def text (x : Float) : String :=
  let bits : Nat := x.toBits.toNat
  let sign := if bits >>> 63 = 1 then ['-'] else []
  let e : Nat := bits >>> 52 % 2048
  let f : Nat := bits % 1 <<< 52
  String.ofList <| sign ++
    if e = 2047 then (if f = 0 then ['i', 'n', 'f'] else ['N', 'a', 'N'])
    else if e = 0 ∧ f = 0 then ['0', '.', '0']
    else if e = 0 then messageLayout.write (shortest ⟨f, -1074, false⟩)
    else messageLayout.write (shortest ⟨f + 1 <<< 52, (e : Int) - 1075, f = 0 ∧ 1 < e⟩)

end Decimal
end Mandate
