/-!
# TOML values and statements

A TOML document is a list of statements. Headers say which table the entries after them
belong to; entries give a key a value. Keys may be paths.
-/

namespace Lindenmayer.Toml

/-- A value. A date or time is kept as it was written. -/
inductive Value where
  | text (content : String)
  | integer (value : Int)
  | double (value : Float)
  | boolean (value : Bool)
  | moment (source : String)
  | array (items : List Value)
  | table (entries : List (String × Value))

/-- A key with the tables around it, the outermost first. -/
structure Path where
  outer : List String
  last : String
deriving DecidableEq

/-- One statement of a document. -/
inductive Statement where
  /-- A table begins, `[path]`. -/
  | header (path : Path)
  /-- One more table of an array begins, `[[path]]`. -/
  | element (path : Path)
  /-- An entry, `path = value`. -/
  | entry (path : Path) (value : Value)

end Lindenmayer.Toml
