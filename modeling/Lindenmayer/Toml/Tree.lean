import Lindenmayer.Toml.Value

/-!
# Building tables

The statements of a document build a tree of tables. A table knows how it came about,
since that decides what may still be put into it: a header defines its table once and
for all, but may come after headers of tables inside it; a path of an entry goes through
no table that a header has defined, and puts its value only into a table that paths of
entries have made.
-/

namespace Lindenmayer.Toml

/-- How a table came about. -/
inductive Standing where
  /-- As a part of a header's path. -/
  | implied
  /-- As a part of an entry's path. -/
  | dotted
  /-- By a header of its own. -/
  | defined
deriving DecidableEq

/-- What a key leads to. -/
inductive Node where
  | leaf (value : Value)
  | branch (standing : Standing) (entries : List (String × Node))
  /-- An array of tables, the latest first. -/
  | elements (tables : List (List (String × Node)))

/-- A table under construction. -/
abbrev Entries := List (String × Node)

namespace Entries

/-- Put a node under a key, in the place of one that stands there. -/
def put (key : String) (node : Node) : Entries → Entries
  | [] => [(key, node)]
  | (k, old) :: rest => if k = key then (k, node) :: rest else (k, old) :: put key node rest

/-- What is done to a table that has been reached, if it can be done. -/
abbrev Change := Standing → Entries → Option Entries

/-- Do something to the table at the end of a path, making the tables that are missing on
the way. `dotted` says that the path is that of an entry. -/
def descend (dotted : Bool) (change : Change) : List String → Change
  | [], standing, entries => change standing entries
  | key :: rest, _, entries =>
      let made : Standing := if dotted then .dotted else .implied
      match entries.lookup key with
      | none =>
          (descend dotted change rest made []).map fun inner =>
            entries.put key (.branch made inner)
      | some (.branch standing inner) =>
          if dotted ∧ standing = .defined then none
          else
            (descend dotted change rest standing inner).map fun inner =>
              entries.put key (.branch standing inner)
      | some (.elements (latest :: older)) =>
          (descend dotted change rest .defined latest).map fun latest =>
            entries.put key (.elements (latest :: older))
      | some (.elements []) | some (.leaf _) => none

/-- Begin the table of a header. -/
def define (path : Path) (root : Entries) : Option Entries :=
  let change : Change := fun _ entries =>
    match entries.lookup path.last with
    | none => some (entries.put path.last (.branch .defined []))
    | some (.branch .implied inner) => some (entries.put path.last (.branch .defined inner))
    | some _ => none
  descend false change path.outer .defined root

/-- Begin one more table of an array. -/
def append (path : Path) (root : Entries) : Option Entries :=
  let change : Change := fun _ entries =>
    match entries.lookup path.last with
    | none => some (entries.put path.last (.elements [[]]))
    | some (.elements tables) => some (entries.put path.last (.elements ([] :: tables)))
    | some _ => none
  descend false change path.outer .defined root

/-- Put the value of an entry into a table. -/
def assign (path : Path) (value : Value) : Change :=
  let change : Change := fun standing entries =>
    if (standing = .dotted ↔ path.outer = []) ∨ (entries.lookup path.last).isSome then none
    else some (entries.put path.last (.leaf value))
  descend true change path.outer

/-- Put the value of an entry into the table of the header before it. -/
def assignAt (current : List String) (path : Path) (value : Value) (root : Entries) :
    Option Entries :=
  descend false (assign path value) current .defined root

end Entries

mutual

/-- The value that has been built. -/
def Node.value : Node → Value
  | .leaf value => value
  | .branch _ entries => .table (Node.valueEntries entries)
  | .elements tables => .array (Node.valueTables tables [])

/-- The entries of a table that has been built. -/
def Node.valueEntries : Entries → List (String × Value)
  | [] => []
  | (key, node) :: rest => (key, node.value) :: Node.valueEntries rest

/-- The tables of an array, the latest first, in front of those that came later still. -/
def Node.valueTables : List Entries → (later : List Value) → List Value
  | [], items => items
  | entries :: rest, items =>
      Node.valueTables rest (.table (Node.valueEntries entries) :: items)

end

namespace Entries

/-- The table of an inline table's entries. -/
def ofPairs (pairs : List (Path × Value)) : Option Entries :=
  pairs.foldlM (fun entries pair => assign pair.1 pair.2 .defined entries) []

/-- The tables that statements build, behind what was built before; `current` is the path
of the header that entries belong to. -/
def build : (current : List String) → Entries → List Statement → Option Entries
  | _, root, [] => some root
  | current, root, statement :: rest =>
      match statement with
      | .header path => (root.define path).bind fun root =>
          build (path.outer ++ [path.last]) root rest
      | .element path => (root.append path).bind fun root =>
          build (path.outer ++ [path.last]) root rest
      | .entry path value => (assignAt current path value root).bind fun root =>
          build current root rest

end Entries

end Lindenmayer.Toml
