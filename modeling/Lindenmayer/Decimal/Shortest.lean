import Lindenmayer.Decimal.Binary

/-!
# Shortest decimals

The shortest decimal of a double is the one with the fewest digits that reads back to
it, and among those the nearest. A decimal reads back when it lies in the interval of
numbers that round to the double; the ends belong to it when the mantissa is even. On
each grid of multiples of a power of ten only the two neighbours of the double need a
look: a grid with a point in the interval has one of them in it.
-/

namespace Lindenmayer.Decimal

/-- The number `digits * 10 ^ exponent`. -/
structure Digits where
  digits : Nat
  exponent : Int
deriving DecidableEq

namespace Magnitude

/-- Four times the number, in units of `10 ^ grid`, is this over `gridDen`. The factor
four keeps the ends of the interval whole. -/
def gridNum (v : Magnitude) (grid : Int) (quarters : Nat) : Nat :=
  quarters * pow2 v.exponent * pow10 (-grid)

/-- See `gridNum`. -/
def gridDen (v : Magnitude) (grid : Int) : Nat :=
  4 * pow2 (-v.exponent) * pow10 grid

/-- The decimal `d * 10 ^ grid` rounds to the number. -/
def readsBack (v : Magnitude) (grid : Int) (d : Nat) : Bool :=
  let point := d * v.gridDen grid
  let low := v.gridNum grid (4 * v.mantissa - if v.narrow then 1 else 2)
  let high := v.gridNum grid (4 * v.mantissa + 2)
  if v.mantissa % 2 = 0 then low ≤ point && point ≤ high else low < point && point < high

/-- The nearest multiple of `10 ^ grid` that reads back, if one does. -/
def onGrid? (v : Magnitude) (tie : Tie) (grid : Int) : Option Digits :=
  let num := v.gridNum grid (4 * v.mantissa)
  let den := v.gridDen grid
  let low := num / den
  match v.readsBack grid low, v.readsBack grid (low + 1) with
  | true, true => some ⟨roundDiv tie num den, grid⟩
  | true, false => some ⟨low, grid⟩
  | false, true => some ⟨low + 1, grid⟩
  | false, false => none

/-- A power of ten above the number: the digits of a double start below it. -/
def topGrid (v : Magnitude) : Int :=
  ((v.mantissa.log2 : Int) + v.exponent) * 1233 / 4096 + 2

/-- The shortest decimal of a positive number. Seventeen digits always suffice, so the
number itself, at the end of the list of grids, is not reached. -/
def shortest (v : Magnitude) (tie : Tie) : Digits :=
  ((List.range 22).findSome? fun i : Nat => v.onGrid? tie (v.topGrid - i)).getD
    ⟨v.mantissa * pow2 v.exponent, 0⟩

end Magnitude

end Lindenmayer.Decimal
