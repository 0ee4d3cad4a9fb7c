/-!
# Binary floating point, taken apart

A finite double is a whole number of units `2 ^ exponent`. `Magnitude.ofFloat` takes
a double apart, and `nearest` puts one together: the double nearest to a ratio of
natural numbers, ties to even. Everything between is exact arithmetic on numbers.
-/

namespace Lindenmayer.Decimal

/-- The number `mantissa * 2 ^ exponent`. -/
structure Magnitude where
  mantissa : Nat
  exponent : Int
  /-- The next smaller double is only half as far away as the next larger one. -/
  narrow : Bool
deriving DecidableEq

/-- What a double stands for. -/
inductive Content where
  | nan
  | infinite (negative : Bool)
  | finite (negative : Bool) (magnitude : Magnitude)
deriving DecidableEq

/-- The exponent of the smallest positive double. -/
def leastExponent : Int := -1074

/-- Fraction bits of a double. -/
def fractionBits : Nat := 52

/-- Take apart the sixty-four bits of a double. -/
def Content.ofBits (bits : Nat) : Content :=
  let negative := bits / Nat.pow 2 63 % 2 = 1
  let biased := bits / Nat.pow 2 fractionBits % Nat.pow 2 11
  let fraction := bits % Nat.pow 2 fractionBits
  if biased = Nat.pow 2 11 - 1 then
    if fraction = 0 then .infinite negative else .nan
  else if biased = 0 then .finite negative ⟨fraction, leastExponent, false⟩
  else
    .finite negative
      ⟨Nat.pow 2 fractionBits + fraction, leastExponent + (biased - 1 : Nat),
        fraction = 0 && 1 < biased⟩

/-- Take a double apart. -/
def Content.ofFloat (x : Float) : Content := .ofBits x.toBits.toNat

/-- Which way a number halfway between two neighbours goes. -/
inductive Tie where
  | up
  | toEven
deriving DecidableEq

/-- The whole number nearest to `num / den`. -/
def roundDiv (tie : Tie) (num den : Nat) : Nat :=
  let q := num / den
  let r := num % den
  if 2 * r < den then q
  else if den < 2 * r then q + 1
  else
    match tie with
    | .up => q + 1
    | .toEven => if q % 2 = 0 then q else q + 1

/-- The power `2 ^ n` for a natural exponent, 1 for a negative one. -/
def pow2 (n : Int) : Nat := Nat.pow 2 n.toNat

/-- The power `10 ^ n` for a natural exponent, 1 for a negative one. -/
def pow10 (n : Int) : Nat := Nat.pow 10 n.toNat

/-- The bits of the double nearest to `num / den`, ties to even; those of infinity when
the ratio is past the largest double. -/
def nearestBits (num den : Nat) : Nat :=
  if num = 0 then 0
  else
    let estimate : Int := (num.log2 : Int) - den.log2
    let order : Int :=
      if den * pow2 estimate ≤ num * pow2 (-estimate) then estimate else estimate - 1
    let exponent := max (order - fractionBits) leastExponent
    let mantissa := roundDiv .toEven (num * pow2 (-exponent)) (den * pow2 exponent)
    min ((exponent - leastExponent).toNat * Nat.pow 2 fractionBits + mantissa)
      ((Nat.pow 2 11 - 1) * Nat.pow 2 fractionBits)

/-- The double nearest to `num / den`, ties to even. -/
def nearest (num den : Nat) : Float := .ofBits (nearestBits num den).toUInt64

/-- The double nearest to `digits * 10 ^ exponent`. Exponents so far out that every such
number is infinite or zero are not computed with. -/
def ofDigits (digits : Nat) (exponent : Int) : Float :=
  if digits = 0 then 0
  else if 400 < exponent then nearest (Nat.pow 2 1024) 1
  else if exponent + (digits.log2 : Int) < -1200 then 0
  else nearest (digits * pow10 exponent) (pow10 (-exponent))

end Lindenmayer.Decimal
