/-!
# TOML strings

Four ways to quote a text. Basic strings stand in double quotes and have escapes;
literal strings stand in single quotes and have none. Both exist with three quotes, and
then hold line breaks. `readBody` reads what stands behind the opening quotes, up to and
with the closing ones; `quote` chooses the way that needs the fewest escapes.
-/

namespace Lindenmayer.Toml

/-- A way to quote. -/
structure Quoting where
  mark : Char
  escapes : Bool
  multiline : Bool
deriving DecidableEq

namespace Quoting

def basic : Quoting := ⟨'"', true, false⟩

def literal : Quoting := ⟨'\'', false, false⟩

def multilineBasic : Quoting := ⟨'"', true, true⟩

def multilineLiteral : Quoting := ⟨'\'', false, true⟩

/-- The quotes on either side. -/
def delimiter (quoting : Quoting) : List Char :=
  if quoting.multiline then [quoting.mark, quoting.mark, quoting.mark] else [quoting.mark]

end Quoting

/-- The character is a control character; a tab is not counted as one. -/
def isControl (c : Char) : Bool := (c.toNat < 0x20 && c ≠ '\t') || c.toNat = 0x7F

/-- The value of a hexadecimal digit. -/
def hexDigit? (c : Char) : Option Nat :=
  if c.isDigit then some (c.toNat - '0'.toNat)
  else if 'a' ≤ c ∧ c ≤ 'f' then some (c.toNat - 'a'.toNat + 10)
  else if 'A' ≤ c ∧ c ≤ 'F' then some (c.toNat - 'A'.toNat + 10)
  else none

/-- The character that a letter behind a backslash stands for. -/
def escaped? : Char → Option Char
  | 'b' => some '\x08'
  | 't' => some '\t'
  | 'n' => some '\n'
  | 'f' => some '\x0c'
  | 'r' => some '\r'
  | '"' => some '"'
  | '\\' => some '\\'
  | _ => none

/-- Where a reader stands inside a string. -/
inductive BodyMode where
  /-- Between characters; blanks and line breaks are skipped behind a backslash that ended
  a line. -/
  | plain (skipping : Bool)
  /-- Behind a backslash. -/
  | escape
  /-- Behind a backslash and blanks, where the line must end. -/
  | lineEnd
  /-- Behind a carriage return, where a line feed must follow. -/
  | carriage (skipping : Bool)
  /-- Among the digits of a code point. -/
  | hex (left value : Nat)
deriving DecidableEq

/-- Put a character in front of what follows it. -/
def prepend (c : Char) (tail : Option (List Char × List Char)) :
    Option (List Char × List Char) :=
  tail.map fun body => (c :: body.1, body.2)

/-- What follows three closing quotes: up to two more belong to the text. -/
def closing (mark : Char) : List Char → List Char × List Char
  | c :: d :: rest =>
      if c = mark then
        if d = mark then ([mark, mark], rest) else ([mark], d :: rest)
      else ([], c :: d :: rest)
  | [c] => if c = mark then ([mark], []) else ([], [c])
  | [] => ([], [])

/-- Read the text of a string and what follows its closing quotes. -/
def readBody (quoting : Quoting) : BodyMode → List Char → Option (List Char × List Char)
  | _, [] => none
  | .plain skipping, c :: rest =>
      if skipping && (c = ' ' || c = '\t' || c = '\n') then readBody quoting (.plain true) rest
      else if c = quoting.mark then
        if quoting.multiline then
          match rest with
          | d :: e :: after =>
              if d = quoting.mark ∧ e = quoting.mark then some (closing quoting.mark after)
              else prepend c (readBody quoting (.plain false) rest)
          | _ => none
        else some ([], rest)
      else if quoting.escapes && c = '\\' then readBody quoting .escape rest
      else if quoting.multiline && c = '\n' then
        prepend '\n' (readBody quoting (.plain false) rest)
      else if quoting.multiline && c = '\r' then readBody quoting (.carriage skipping) rest
      else if isControl c then none
      else prepend c (readBody quoting (.plain false) rest)
  | .escape, c :: rest =>
      match escaped? c with
      | some d => prepend d (readBody quoting (.plain false) rest)
      | none =>
          if c = 'u' then readBody quoting (.hex 4 0) rest
          else if c = 'U' then readBody quoting (.hex 8 0) rest
          else if !quoting.multiline then none
          else if c = ' ' || c = '\t' then readBody quoting .lineEnd rest
          else if c = '\n' then readBody quoting (.plain true) rest
          else if c = '\r' then readBody quoting (.carriage true) rest
          else none
  | .lineEnd, c :: rest =>
      if c = ' ' || c = '\t' then readBody quoting .lineEnd rest
      else if c = '\n' then readBody quoting (.plain true) rest
      else if c = '\r' then readBody quoting (.carriage true) rest
      else none
  | .carriage skipping, c :: rest =>
      if c ≠ '\n' then none
      else if skipping then readBody quoting (.plain true) rest
      else prepend '\n' (readBody quoting (.plain false) rest)
  | .hex left value, c :: rest =>
      match hexDigit? c with
      | none => none
      | some digit =>
          let value := 16 * value + digit
          if left ≤ 1 then
            if value.isValidChar then
              prepend (Char.ofNat value) (readBody quoting (.plain false) rest)
            else none
          else readBody quoting (.hex (left - 1) value) rest

/-- A text less the line break that it starts with. -/
def dropLineBreak : List Char → List Char
  | '\n' :: rest => rest
  | '\r' :: '\n' :: rest => rest
  | cs => cs

/-- Read a string on one line, from its opening quote. -/
def readLine? : List Char → Option (List Char × List Char)
  | '"' :: rest => readBody .basic (.plain false) rest
  | '\'' :: rest => readBody .literal (.plain false) rest
  | _ => none

/-- Read a string of any kind, from its opening quotes. A line break right behind three
quotes is no part of the text. -/
def readString? : List Char → Option (List Char × List Char)
  | '"' :: '"' :: '"' :: rest => readBody .multilineBasic (.plain false) (dropLineBreak rest)
  | '\'' :: '\'' :: '\'' :: rest =>
      readBody .multilineLiteral (.plain false) (dropLineBreak rest)
  | cs => readLine? cs

/-- The longest run of a character, `current` of them standing right before the list. -/
def longestRun (mark : Char) : (current longest : Nat) → List Char → Nat
  | current, longest, [] => max current longest
  | current, longest, c :: rest =>
      if c = mark then longestRun mark (current + 1) longest rest
      else longestRun mark 0 (max current longest) rest

/-- The way to quote a text: without escapes where that can be, on one line if there is
one line only, and with double quotes rather than single ones. -/
def quotingOf (cs : List Char) : Quoting :=
  let controls := cs.any fun c => isControl c && c ≠ '\n'
  let breaks := cs.contains '\n'
  let bare := !controls && !cs.contains '\\'
  let doubles := longestRun '"' 0 0 cs
  let singles := longestRun '\'' 0 0 cs
  if bare && doubles = 0 && !breaks then .basic
  else if !controls && singles = 0 && !breaks then .literal
  else if bare && doubles ≤ 2 then .multilineBasic
  else if !controls && singles ≤ 2 then .multilineLiteral
  else if breaks then .multilineBasic
  else .basic

/-- Four hexadecimal digits. -/
def hexText (n : Nat) : List Char :=
  let digit (k : Nat) : Char := (Nat.digitChar (n / Nat.pow 16 k % 16)).toUpper
  [digit 3, digit 2, digit 1, digit 0]

/-- A character behind a backslash where it cannot stand for itself. -/
def escapeText (multiline : Bool) (c : Char) : List Char :=
  if c = '\x08' then ['\\', 'b']
  else if c = '\t' then ['\\', 't']
  else if c = '\n' then if multiline then ['\n'] else ['\\', 'n']
  else if c = '\x0c' then ['\\', 'f']
  else if c = '\r' then ['\\', 'r']
  else if c = '\\' then ['\\', '\\']
  else if isControl c then '\\' :: 'u' :: hexText c.toNat
  else [c]

/-- The text between basic quotes, `quotes` double quotes standing right before it. On
several lines two double quotes in a row can stand for themselves. -/
def escapeBody (multiline : Bool) : (quotes : Nat) → List Char → List Char
  | _, [] => []
  | quotes, c :: rest =>
      if c = '"' then
        if multiline && quotes < 2 then c :: escapeBody multiline (quotes + 1) rest
        else '\\' :: c :: escapeBody multiline 0 rest
      else escapeText multiline c ++ escapeBody multiline 0 rest

/-- A text in a way of quoting. Three quotes are followed by a line break if the text has
one. -/
def quoteIn (quoting : Quoting) (cs : List Char) : List Char :=
  let opening := if quoting.multiline && cs.contains '\n' then ['\n'] else []
  let body := if quoting.escapes then escapeBody quoting.multiline 0 cs else cs
  quoting.delimiter ++ opening ++ body ++ quoting.delimiter

/-- A text as a string. -/
def quote (cs : List Char) : List Char := quoteIn (quotingOf cs) cs

end Lindenmayer.Toml
