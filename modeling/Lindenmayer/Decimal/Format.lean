import Lindenmayer.Decimal.Shortest

/-!
# Decimal texts

`Format` gathers the decisions that a text format takes about doubles; `Format.write`
is one writer for all of them. `plain` is the format of messages. `fixed` writes a set
number of places, `read` reads a decimal text.
-/

namespace Lindenmayer.Decimal

/-- How a text format writes doubles. -/
structure Format where
  /-- Which of two equally near shortest decimals is taken. -/
  tie : Tie
  /-- Orders of magnitude written without an exponent: from the first, below the second.
  All of them when absent. -/
  positional : Option (Int × Int) := none
  /-- Whole numbers end in `.0`. -/
  wholePoint : Bool
  /-- The texts of what is not finite. -/
  nan : String
  infinity : String
  negativeInfinity : String

/-- The digits of a natural number. -/
def digitChars (n : Nat) : List Char := Nat.toDigits 10 n

/-- Digits with a point: `point` of them stand before it, and zeros fill the gaps. -/
def place (wholePoint : Bool) (digits : List Char) (point : Int) : List Char :=
  if point ≤ 0 then '0' :: '.' :: (List.replicate (-point).toNat '0' ++ digits)
  else if (digits.length : Int) ≤ point then
    digits ++ List.replicate (point.toNat - digits.length) '0' ++
      if wholePoint then ['.', '0'] else []
  else digits.take point.toNat ++ '.' :: digits.drop point.toNat

/-- One digit, a point if more follow, and a signed exponent. -/
def scientific (digits : List Char) (point : Int) : List Char :=
  let exponent := point - 1
  let tail := digits.drop 1
  digits.take 1 ++ (if tail.isEmpty then [] else '.' :: tail) ++
    'e' :: (if exponent < 0 then '-' else '+') :: digitChars exponent.natAbs

namespace Format

/-- A positive or zero number. -/
def writeMagnitude (format : Format) (v : Magnitude) : List Char :=
  if v.mantissa = 0 then '0' :: if format.wholePoint then ['.', '0'] else []
  else
    let short := v.shortest format.tie
    let digits := digitChars short.digits
    let point := (digits.length : Int) + short.exponent
    match format.positional with
    | none => place format.wholePoint digits point
    | some (first, past) =>
        if first < point && point ≤ past then place format.wholePoint digits point
        else scientific digits point

/-- The text of a double. -/
def write (format : Format) (x : Float) : String :=
  match Content.ofFloat x with
  | .nan => format.nan
  | .infinite negative => if negative then format.negativeInfinity else format.infinity
  | .finite negative v =>
      String.ofList (if negative then '-' :: format.writeMagnitude v else format.writeMagnitude v)

end Format

/-- Messages write every digit of the shortest decimal and no exponent; of two equally
near decimals they take the larger. -/
def plain : Format :=
  { tie := .up, wholePoint := false, nan := "NaN", infinity := "inf",
    negativeInfinity := "-inf" }

/-- The text of a double in messages. -/
def text (x : Float) : String := plain.write x

/-- A positive or zero number with `places` decimals, ties to even. -/
def fixedMagnitude (places : Nat) (v : Magnitude) : List Char :=
  let scaled :=
    roundDiv .toEven (v.mantissa * pow2 v.exponent * Nat.pow 10 places) (pow2 (-v.exponent))
  let whole := digitChars (scaled / Nat.pow 10 places)
  let tail := digitChars (scaled % Nat.pow 10 places)
  if places = 0 then whole
  else whole ++ '.' :: (List.replicate (places - tail.length) '0' ++ tail)

/-- The text of a double with `places` decimals, from its exact value. -/
def fixed (places : Nat) (x : Float) : String :=
  match Content.ofFloat x with
  | .nan => plain.nan
  | .infinite negative => if negative then plain.negativeInfinity else plain.infinity
  | .finite negative v =>
      String.ofList (if negative then '-' :: fixedMagnitude places v else fixedMagnitude places v)

/-- Why a text is no decimal. -/
inductive ReadError where
  | empty
  | invalid
deriving DecidableEq

/-- The error in words. -/
def ReadError.message : ReadError → String
  | empty => "cannot parse float from empty string"
  | invalid => "invalid float literal"

/-- The number that decimal digits write. -/
def ofDigitChars (digits : List Char) : Nat :=
  digits.foldl (fun n c => 10 * n + (c.toNat - '0'.toNat)) 0

/-- The exponent after a mantissa: nothing, or `e`, a sign or none, and digits. -/
def readExponent? : List Char → Option Int
  | [] => some 0
  | c :: rest =>
      if c.toLower = 'e' then
        let (negative, digits) :=
          match rest with
          | '-' :: digits => (true, digits)
          | '+' :: digits => (false, digits)
          | digits => (false, digits)
        if digits.isEmpty || !digits.all Char.isDigit then none
        else some (if negative then -(ofDigitChars digits : Int) else ofDigitChars digits)
      else none

/-- Digits, a point among or beside them or none, and an exponent or none. -/
def readUnsigned? (cs : List Char) : Option Float :=
  let whole := cs.takeWhile Char.isDigit
  let rest := cs.dropWhile Char.isDigit
  let (fraction, rest) :=
    match rest with
    | '.' :: rest => (rest.takeWhile Char.isDigit, rest.dropWhile Char.isDigit)
    | rest => ([], rest)
  if whole.isEmpty && fraction.isEmpty then none
  else
    (readExponent? rest).map fun exponent =>
      ofDigits (ofDigitChars (whole ++ fraction)) (exponent - fraction.length)

/-- A text without sign: a word for what is not finite, in any case, or a decimal. -/
def readMagnitude? (cs : List Char) : Option Float :=
  match String.ofList (cs.map Char.toLower) with
  | "inf" | "infinity" => some (1.0 / 0.0)
  | "nan" => some (0.0 / 0.0)
  | _ => readUnsigned? cs

/-- Read a decimal text to the nearest double. -/
def read (s : String) : Except ReadError Float :=
  let result :=
    match s.toList with
    | '-' :: rest => (readMagnitude? rest).map fun x => -x
    | '+' :: rest => readMagnitude? rest
    | cs => readMagnitude? cs
  match result with
  | some x => .ok x
  | none => .error (if s.isEmpty then .empty else .invalid)

end Lindenmayer.Decimal
