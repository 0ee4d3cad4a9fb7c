import Lindenmayer.Toml.Reader
import Lindenmayer.Toml.Tree

/-!
# TOML documents

A text is read as statements, and the statements build the table that the document
stands for. Statements are written one to a line, with an empty line before headers.
-/

namespace Lindenmayer.Toml

/-- Read a value with at most so many arrays and inline tables inside one another. -/
def readValue? : (depth : Nat) → Reader Value
  | depth, '[' :: rest =>
      match depth with
      | 0 => none
      | depth + 1 =>
          (readItems? (readValue? depth) rest.length rest).map fun items =>
            (.array items.1, items.2)
  | depth, '\x7b' :: rest =>
      match depth with
      | 0 => none
      | depth + 1 =>
          match skipSpaces rest with
          | '\x7d' :: rest => some (.table [], rest)
          | _ => do
              let (pairs, rest) ← readEntries? (readValue? depth) rest.length rest
              let entries ← Entries.ofPairs pairs
              return (.table (Node.valueEntries entries), rest)
  | _, cs => readScalar? cs

/-- Read a header behind its opening brackets. -/
def readHeader? : List Char → Option (Statement × List Char)
  | '[' :: rest => do
      let (path, rest) ← readPath? rest
      match rest with
      | ']' :: ']' :: rest => return (.element path, rest)
      | _ => none
  | rest => do
      let (path, rest) ← readPath? rest
      match rest with
      | ']' :: rest => return (.header path, rest)
      | _ => none

/-- Read an entry. -/
def readEntry? (cs : List Char) : Option (Statement × List Char) := do
  let (path, cs) ← readPath? cs
  let (value, cs) ← readAssigned? (readValue? nesting) cs
  return (.entry path value, cs)

/-- Read the statements of a text. -/
def readStatements? : (fuel : Nat) → List Char → Option (List Statement)
  | 0, cs => if cs.isEmpty then some [] else none
  | fuel + 1, cs =>
      match skipSpaces cs with
      | [] => some []
      | '#' :: rest => (readLineEnd? ('#' :: rest)).bind (readStatements? fuel)
      | '\n' :: rest => readStatements? fuel rest
      | '\r' :: '\n' :: rest => readStatements? fuel rest
      | cs => do
          let (statement, cs) ←
            match cs with
            | '[' :: rest => readHeader? rest
            | cs => readEntry? cs
          let cs ← readLineEnd? cs
          let statements ← readStatements? fuel cs
          return statement :: statements

/-- The statements of a text; a byte order mark in front of them is skipped. -/
def statements? (text : String) : Option (List Statement) :=
  match text.toList with
  | '\uFEFF' :: cs => readStatements? cs.length cs
  | cs => readStatements? cs.length cs

/-- The table that a document stands for. -/
def read? (text : String) : Option (List (String × Value)) := do
  let statements ← statements? text
  let entries ← Entries.build [] [] statements
  return Node.valueEntries entries

/-- The text of a key: as it is if it is a word, in quotes otherwise. -/
def keyText (key : String) : List Char :=
  let cs := key.toList
  if cs.isEmpty || !cs.all isBare then quoteIn .basic cs else cs

/-- The text of a path. -/
def Path.text (path : Path) : List Char :=
  path.outer.flatMap (fun key => keyText key ++ ['.']) ++ keyText path.last

mutual

/-- The text of a value. -/
def Value.write : Value → List Char
  | .text content => quote content.toList
  | .integer value => (toString value).toList
  | .double value => (doubleFormat.write value).toList
  | .boolean true => ['t', 'r', 'u', 'e']
  | .boolean false => ['f', 'a', 'l', 's', 'e']
  | .moment source => source.toList
  | .array items => '[' :: Value.writeItems items
  | .table entries => '\x7b' :: Value.writeEntries entries

/-- The text of an array's items and what closes them. -/
def Value.writeItems : List Value → List Char
  | [] => [']']
  | item :: rest => item.write ++ (if rest.isEmpty then [] else [',', ' ']) ++
      Value.writeItems rest

/-- The text of an inline table's entries and what closes them. -/
def Value.writeEntries : List (String × Value) → List Char
  | [] => ['\x7d']
  | (key, value) :: rest =>
      ' ' :: keyText key ++ [' ', '=', ' '] ++ value.write ++
        (if rest.isEmpty then [' '] else [',']) ++ Value.writeEntries rest

end

/-- The line of a statement. -/
def Statement.line : Statement → List Char
  | .header path => '[' :: path.text ++ [']', '\n']
  | .element path => '[' :: '[' :: path.text ++ [']', ']', '\n']
  | .entry path value => path.text ++ [' ', '=', ' '] ++ value.write ++ ['\n']

/-- The statement begins a table. -/
def Statement.isHeader : Statement → Bool
  | .header _ | .element _ => true
  | .entry _ _ => false

/-- The text of statements behind others. -/
def writeFurther (statements : List Statement) : List Char :=
  statements.flatMap fun statement =>
    if statement.isHeader then '\n' :: statement.line else statement.line

/-- The text of a document. -/
def write (statements : List Statement) : String :=
  match statements with
  | [] => ""
  | first :: rest => String.ofList (first.line ++ writeFurther rest)

end Lindenmayer.Toml
