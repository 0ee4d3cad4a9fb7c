import Lindenmayer.Decimal.Format
import Lindenmayer.Toml.Quoted
import Lindenmayer.Toml.Value

/-!
# TOML numbers and dates

Integers are decimal with a sign or without, or hexadecimal, octal or binary; they have
sixty-four bits. Doubles have a point or an exponent. Single underscores may stand
between digits. Dates and times are checked against the calendar and the clock.
-/

namespace Lindenmayer.Toml

/-- The digits that a text starts with, and what follows them. An underscore between two
digits is left out; `behind` says that a digit stands right before the text. -/
def readDigits (isDigit : Char → Bool) : (behind : Bool) → List Char → List Char × List Char
  | _, [] => ([], [])
  | behind, c :: rest =>
      if isDigit c then
        let (digits, tail) := readDigits isDigit true rest
        (c :: digits, tail)
      else if behind && c = '_' && rest.head?.any isDigit then readDigits isDigit false rest
      else ([], c :: rest)

/-- The number that digits of a base write. -/
def ofBaseDigits (base : Nat) (digits : List Char) : Nat :=
  digits.foldl (fun n c => base * n + (hexDigit? c).getD 0) 0

/-- An integer that fits into sixty-four bits. -/
def inRange? (n : Int) : Option Value :=
  let bound : Int := Nat.pow 2 63
  if -bound ≤ n ∧ n < bound then some (.integer n) else none

/-- Read the digits behind `0x`, `0o` or `0b`. -/
def readBase? (base : Nat) (cs : List Char) : Option (Value × List Char) :=
  let (digits, rest) := readDigits (fun c => (hexDigit? c).any (· < base)) false cs
  if digits.isEmpty then none
  else (inRange? (ofBaseDigits base digits)).map fun value => (value, rest)

/-- The sign that a text starts with, and what follows it. -/
def readSign : List Char → Bool × List Char
  | '-' :: rest => (true, rest)
  | '+' :: rest => (false, rest)
  | cs => (false, cs)

/-- The digits of a whole number: a zero stands alone. -/
def readWhole : List Char → List Char × List Char
  | '0' :: rest => (['0'], rest)
  | cs => readDigits Char.isDigit false cs

/-- An exponent if there is one; without digits it is none at all. -/
def readPower? : List Char → Option (Option Int × List Char)
  | c :: rest =>
      if c = 'e' ∨ c = 'E' then
        let (negative, rest) := readSign rest
        let (digits, rest) := readDigits Char.isDigit false rest
        if digits.isEmpty then none
        else
          let power : Int := Decimal.ofDigitChars digits
          some (some (if negative then -power else power), rest)
      else some (none, c :: rest)
  | [] => some (none, [])

/-- The digits behind a point if there is one. -/
def readFraction? : List Char → Option (Option (List Char) × List Char)
  | '.' :: rest =>
      let (digits, rest) := readDigits Char.isDigit false rest
      if digits.isEmpty then none else some (some digits, rest)
  | cs => some (none, cs)

/-- The double of a sign, digits and a power of ten. Positive numbers that are too large
are refused. -/
def double? (negative : Bool) (digits : List Char) (power : Int) : Option Value :=
  let x := Decimal.ofDigits (Decimal.ofDigitChars digits) power
  if negative then some (.double (-x))
  else if x.isInf then none
  else some (.double x)

/-- Read a number behind its sign. -/
def readUnsigned? (negative : Bool) (cs : List Char) : Option (Value × List Char) :=
  let (whole, rest) := readWhole cs
  if whole.isEmpty then none
  else do
    let (fraction?, rest) ← readFraction? rest
    let (power?, rest) ← readPower? rest
    let value ←
      match fraction?, power? with
      | none, none =>
          let n : Int := Decimal.ofDigitChars whole
          inRange? (if negative then -n else n)
      | _, _ =>
          let fraction := fraction?.getD []
          double? negative (whole ++ fraction) (power?.getD 0 - fraction.length)
    return (value, rest)

/-- Read a number from its sign or first digit. -/
def readNumber? (cs : List Char) : Option (Value × List Char) :=
  match cs with
  | '0' :: 'x' :: rest => readBase? 16 rest
  | '0' :: 'o' :: rest => readBase? 8 rest
  | '0' :: 'b' :: rest => readBase? 2 rest
  | _ =>
      let (negative, rest) := readSign cs
      let signed (x : Float) : Value := .double (if negative then -x else x)
      match rest with
      | 'i' :: 'n' :: 'f' :: rest => some (signed (1.0 / 0.0), rest)
      | 'n' :: 'a' :: 'n' :: rest => some (signed (0.0 / 0.0), rest)
      | _ => readUnsigned? negative rest

/-- Read a number of a set count of digits, within bounds. -/
def readField? (count low high : Nat) (cs : List Char) : Option (Nat × List Char) :=
  let digits := cs.take count
  let n := Decimal.ofDigitChars digits
  if digits.length = count ∧ digits.all Char.isDigit ∧ low ≤ n ∧ n ≤ high then
    some (n, cs.drop count)
  else none

/-- Read a character. -/
def readMark? (mark : Char) : List Char → Option (List Char)
  | c :: rest => if c = mark then some rest else none
  | [] => none

/-- Number of days of a month. -/
def monthLength (year month : Nat) : Nat :=
  if month = 2 then
    if year % 4 = 0 ∧ (year % 100 ≠ 0 ∨ year % 400 = 0) then 29 else 28
  else if month = 4 ∨ month = 6 ∨ month = 9 ∨ month = 11 then 30
  else 31

/-- Read a date behind its year and the first hyphen. -/
def readDate? (year : Nat) (cs : List Char) : Option (List Char) := do
  let (month, cs) ← readField? 2 1 12 cs
  let cs ← readMark? '-' cs
  let (_, cs) ← readField? 2 1 (monthLength year month) cs
  return cs

/-- Read a time behind its hour and the first colon. -/
def readTime? (cs : List Char) : Option (List Char) := do
  let (_, cs) ← readField? 2 0 59 cs
  let cs ← readMark? ':' cs
  let (_, cs) ← readField? 2 0 60 cs
  match cs with
  | '.' :: rest =>
      let fraction := rest.takeWhile Char.isDigit
      return if fraction.isEmpty then cs else rest.dropWhile Char.isDigit
  | _ => return cs

/-- An hour with the colon behind it. -/
def readHour? (cs : List Char) : Option (List Char) := do
  let (_, cs) ← readField? 2 0 23 cs
  readMark? ':' cs

/-- Read the distance from universal time, if there is one. -/
def readOffset? (cs : List Char) : Option (List Char) :=
  match cs with
  | c :: rest =>
      if c = 'Z' ∨ c = 'z' then some rest
      else if c = '+' ∨ c = '-' then do
        let rest ← readHour? rest
        let (_, rest) ← readField? 2 0 59 rest
        return rest
      else some cs
  | [] => some []

/-- Read a time of day behind a date, if there is one. -/
def readClock? (cs : List Char) : Option (List Char) :=
  match cs with
  | c :: rest =>
      if c = 'T' ∨ c = 't' ∨ c = ' ' then
        match readHour? rest with
        | some rest => (readTime? rest).bind readOffset?
        | none => some cs
      else some cs
  | [] => some []

/-- Whether a text starts with a date, a time or neither, and what follows it; `none` if
it starts like a date or time and is not one. -/
def readMoment? (cs : List Char) : Option (Option (List Char)) :=
  match readField? 4 0 9999 cs with
  | some (year, '-' :: rest) => ((readDate? year rest).bind readClock?).map some
  | _ =>
      match readHour? cs with
      | some rest => (readTime? rest).map some
      | none => some none

/-- Read a date, a time or a number. -/
def readNumeric? (cs : List Char) : Option (Value × List Char) :=
  match readMoment? cs with
  | none => none
  | some none => readNumber? cs
  | some (some rest) =>
      some (.moment (String.ofList (cs.take (cs.length - rest.length))), rest)

/-- Doubles are written without exponent and always with a point. -/
def doubleFormat : Decimal.Format :=
  { tie := .up, wholePoint := true, nan := "nan", infinity := "inf", negativeInfinity := "-inf" }

end Lindenmayer.Toml
