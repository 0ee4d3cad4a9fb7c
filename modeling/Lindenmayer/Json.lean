import Lindenmayer.Decimal.Format

/-!
# JSON values

A value in JSON and its two texts: compact, and indented by two spaces. Fields are
written in the order in which they stand.
-/

namespace Lindenmayer

/-- A value. Numbers are whole numbers or doubles. -/
inductive Json where
  | null
  | bool (value : Bool)
  | whole (value : Nat)
  | double (value : Float)
  | text (value : String)
  | array (items : List Json)
  | object (fields : List (String × Json))

namespace Json

/-- Doubles have a point or an exponent; values from `1e-5` up to `1e16` are written
without exponent. What is not finite is `null`. -/
def doubleFormat : Decimal.Format :=
  { tie := .toEven, positional := some (-5, 16), wholePoint := true,
    nan := "null", infinity := "null", negativeInfinity := "null" }

/-- A character inside a string. -/
def escape (c : Char) : List Char :=
  if c = '"' then ['\\', '"']
  else if c = '\\' then ['\\', '\\']
  else if c = '\n' then ['\\', 'n']
  else if c = '\r' then ['\\', 'r']
  else if c = '\t' then ['\\', 't']
  else if c = '\x08' then ['\\', 'b']
  else if c = '\x0c' then ['\\', 'f']
  else if c.toNat < 0x20 then
    ['\\', 'u', '0', '0', Nat.digitChar (c.toNat / 16), Nat.digitChar (c.toNat % 16)]
  else [c]

/-- A string with its quotes. -/
def quote (s : String) : String :=
  "\"" ++ String.ofList (s.toList.flatMap escape) ++ "\""

/-- The text of a value without parts. -/
def scalarText : Json → String
  | null => "null"
  | bool true => "true"
  | bool false => "false"
  | whole value => toString value
  | double value => doubleFormat.write value
  | text value => quote value
  | array _ => "[]"
  | object _ => "{}"

mutual

/-- Write a value on one line behind `out`. -/
def writeCompact (out : String) : Json → String
  | array (first :: rest) => writeCompactItems (writeCompact (out ++ "[") first) rest ++ "]"
  | object ((key, first) :: rest) =>
      writeCompactFields (writeCompact (out ++ "\x7b" ++ quote key ++ ":") first) rest ++ "\x7d"
  | value => out ++ value.scalarText

/-- Write further items. -/
def writeCompactItems (out : String) : List Json → String
  | [] => out
  | item :: rest => writeCompactItems (writeCompact (out ++ ",") item) rest

/-- Write further fields. -/
def writeCompactFields (out : String) : List (String × Json) → String
  | [] => out
  | (key, value) :: rest =>
      writeCompactFields (writeCompact (out ++ "," ++ quote key ++ ":") value) rest

end

/-- The text of a value on one line. -/
def compact (value : Json) : String := writeCompact "" value

mutual

/-- Write a value behind `out`; what it holds stands on lines that start with `inner`. -/
def writeIndented (out : String) (outer inner : String) : Json → String
  | array (first :: rest) =>
      writeIndentedItems (writeIndented (out ++ "[" ++ inner) inner (inner ++ "  ") first)
        inner rest ++ outer ++ "]"
  | object ((key, first) :: rest) =>
      writeIndentedFields
        (writeIndented (out ++ "\x7b" ++ inner ++ quote key ++ ": ") inner (inner ++ "  ") first)
        inner rest ++ outer ++ "\x7d"
  | value => out ++ value.scalarText

/-- Write further items. -/
def writeIndentedItems (out : String) (inner : String) : List Json → String
  | [] => out
  | item :: rest =>
      writeIndentedItems (writeIndented (out ++ "," ++ inner) inner (inner ++ "  ") item)
        inner rest

/-- Write further fields. -/
def writeIndentedFields (out : String) (inner : String) : List (String × Json) → String
  | [] => out
  | (key, value) :: rest =>
      writeIndentedFields
        (writeIndented (out ++ "," ++ inner ++ quote key ++ ": ") inner (inner ++ "  ") value)
        inner rest

end

/-- The text of a value with every item and field on a line of its own. -/
def indented (value : Json) : String := writeIndented "" "\n" "\n  " value

end Json

end Lindenmayer
