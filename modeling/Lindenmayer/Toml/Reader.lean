import Lindenmayer.Toml.Number

/-!
# Reading TOML

A document is read statement by statement. Arrays and inline tables may be nested below
`nesting`, and paths may have that many keys; loops over a text end at the latest with
its last character, so they count down from its length.
-/

namespace Lindenmayer.Toml

/-- What reads the beginning of a text: its result, and the rest of the text. -/
abbrev Reader (α : Type) := List Char → Option (α × List Char)

/-- Most arrays and inline tables inside one another, and most keys of a path. -/
def nesting : Nat := 79

/-- A blank inside a line. -/
def isSpace (c : Char) : Bool := c = ' ' || c = '\t'

/-- The text without the blanks that it starts with. -/
def skipSpaces (cs : List Char) : List Char := cs.dropWhile isSpace

/-- The text behind a comment, which ends with its line. -/
def skipComment (cs : List Char) : List Char :=
  cs.dropWhile fun c => !isControl c

/-- A character of a key without quotes. -/
def isBare (c : Char) : Bool := c.isAlphanum || c = '-' || c = '_'

/-- Read the end of a line: blanks, a comment or none, and a line break or the end of the
text. -/
def readLineEnd? (cs : List Char) : Option (List Char) :=
  let cs := skipSpaces cs
  let cs :=
    match cs with
    | '#' :: rest => skipComment rest
    | cs => cs
  match cs with
  | [] => some []
  | '\n' :: rest => some rest
  | '\r' :: '\n' :: rest => some rest
  | _ => none

/-- The text behind blanks, line breaks and comments, of which it takes `fuel`
characters at most. -/
def skipLines : (fuel : Nat) → List Char → List Char
  | fuel + 1, '#' :: rest => skipLines fuel (skipComment rest)
  | fuel + 1, '\r' :: '\n' :: rest => skipLines fuel rest
  | fuel + 1, c :: rest =>
      if isSpace c || c = '\n' then skipLines fuel rest else c :: rest
  | _, cs => cs

/-- The text behind all blanks, line breaks and comments that it starts with. -/
def skipTrivia (cs : List Char) : List Char := skipLines cs.length cs

/-- Read a key: a string on one line, or a word. -/
def readKey? : Reader String
  | '"' :: rest => (readLine? ('"' :: rest)).map fun key => (String.ofList key.1, key.2)
  | '\'' :: rest => (readLine? ('\'' :: rest)).map fun key => (String.ofList key.1, key.2)
  | cs =>
      let word := cs.takeWhile isBare
      if word.isEmpty then none else some (String.ofList word, cs.dropWhile isBare)

/-- Read at most so many keys with points between them. -/
def readKeys? : (most : Nat) → Reader Path
  | 0, _ => none
  | most + 1, cs => do
      let (key, cs) ← readKey? (skipSpaces cs)
      match skipSpaces cs with
      | '.' :: rest =>
          let (path, rest) ← readKeys? most rest
          return ({ path with outer := key :: path.outer }, rest)
      | cs => return (⟨[], key⟩, cs)

/-- Read a path. -/
def readPath? : Reader Path := readKeys? nesting

/-- Read the items of an array behind its bracket or a comma. -/
def readItems? (readItem? : Reader Value) : (fuel : Nat) → Reader (List Value)
  | 0, _ => none
  | fuel + 1, cs =>
      match skipTrivia cs with
      | ']' :: rest => some ([], rest)
      | cs => do
          let (item, cs) ← readItem? cs
          match skipTrivia cs with
          | ']' :: rest => return ([item], rest)
          | ',' :: rest =>
              let (items, rest) ← readItems? readItem? fuel rest
              return (item :: items, rest)
          | _ => none

/-- Read an equals sign and a value behind a path. -/
def readAssigned? (readItem? : Reader Value) (cs : List Char) : Option (Value × List Char) :=
  match cs with
  | '=' :: rest => readItem? (skipSpaces rest)
  | _ => none

/-- Read the entries of an inline table behind its brace or a comma. -/
def readEntries? (readItem? : Reader Value) : (fuel : Nat) → Reader (List (Path × Value))
  | 0, _ => none
  | fuel + 1, cs => do
      let (path, cs) ← readPath? cs
      let (value, cs) ← readAssigned? readItem? cs
      match skipSpaces cs with
      | '\x7d' :: rest => return ([(path, value)], rest)
      | ',' :: rest =>
          let (entries, rest) ← readEntries? readItem? fuel rest
          return ((path, value) :: entries, rest)
      | _ => none

/-- Read a value without parts. -/
def readScalar? : Reader Value
  | 't' :: 'r' :: 'u' :: 'e' :: rest => some (.boolean true, rest)
  | 'f' :: 'a' :: 'l' :: 's' :: 'e' :: rest => some (.boolean false, rest)
  | '"' :: rest => (readString? ('"' :: rest)).map fun s => (.text (String.ofList s.1), s.2)
  | '\'' :: rest => (readString? ('\'' :: rest)).map fun s => (.text (String.ofList s.1), s.2)
  | cs => readNumeric? cs

end Lindenmayer.Toml
