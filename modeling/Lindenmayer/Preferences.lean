import Lindenmayer.Decimal.Format
import Lindenmayer.Journal.Service
import Lindenmayer.Expander
import Lindenmayer.Token
import Lindenmayer.Vector

/-!
# Preferences

Settings that do not belong to a definition. They come from environment variables; one
that is unset or cannot be read leaves the default.
-/

namespace Lindenmayer

/-- How the user wants things done. -/
structure Preferences where
  /-- Rules may use pitch and roll. -/
  extendedDirections : Bool := false
  /-- Errors in texts are entered in the journal with their places, where an analyzer is not told
  otherwise. The one that reads start words never is. -/
  defaultPositions : Bool := true
  noMatch : NoMatchPolicy := .drop
  /-- Each pass of an expansion is entered in the journal. -/
  notePasses : Bool := false
  /-- The symbol that is a step. -/
  move : Char := 'F'
  heading : Vector3 := .unitZ
  /-- The console writes JSON. -/
  structured : Bool := false
  /-- The journal is written to a console. -/
  console : Bool := false
  level : Level := .warning
deriving BEq

/-- Read a level by its name in any case, or by its number. -/
def Level.parse? (text : String) : Option Level :=
  match text.map Char.toLower with
  | "error" | "0" => some .error
  | "warning" | "warn" | "1" => some .warning
  | "info" | "2" => some .info
  | "debug" | "3" => some .debug
  | _ => none

/-- The loudest level that a preference may choose. -/
def Level.floor : Level :=
  match Limits.levelFloor with
  | 0 => .error
  | 1 => .warning
  | _ => .info

namespace Preferences

/-- Read `true` or `false`. -/
def readBool? (text : String) : Option Bool :=
  match text with
  | "true" => some true
  | "false" => some false
  | _ => none

/-- Read a move symbol: one letter. -/
def readMove? (text : String) : Option Char :=
  match text.toList with
  | [c] => if c.isAlpha then some c else none
  | _ => none

/-- The number `2 ^ -52`: a heading must have a square of its length above it. -/
def leastSquare : Float := .ofBits 0x3CB0000000000000

/-- Read a heading: three finite numbers with commas between them, not all near zero. -/
def readHeading? (text : String) : Option Vector3 :=
  let parts := (text.splitOn ",").map fun part => (Decimal.read (Text.trim part)).toOption
  match parts with
  | [some x, some y, some z] =>
      if x.isFinite && y.isFinite && z.isFinite && x * x + y * y + z * z > leastSquare then
        some ⟨x, y, z⟩
      else none
  | _ => none

/-- The variables that say something about preferences. -/
def environmentNames : List String :=
  ["LSYS_LEXICAL_EXTENDED_DIRECTIONS", "LSYS_LEXICAL_INCLUDE_POSITIONS",
    "LSYS_REWRITE_NO_MATCH", "LSYS_REWRITE_LOG_ITERATIONS", "LSYS_TURTLE_MOVE_SYMBOL",
    "LSYS_TURTLE_HEADING", "LSYS_LOGGING_USE_STRUCTURED", "LSYS_LOGGING_ENABLE_CONSOLE",
    "LSYS_LOGGING_MIN_LEVEL"]

/-- The preferences in an environment. -/
def ofEnvironment (lookup : String → Option String) : Preferences where
  extendedDirections := ((lookup "LSYS_LEXICAL_EXTENDED_DIRECTIONS").bind readBool?).getD false
  defaultPositions :=
    ((lookup "LSYS_LEXICAL_INCLUDE_POSITIONS").bind readBool?).getD true
  noMatch :=
    ((lookup "LSYS_REWRITE_NO_MATCH").bind fun text =>
      (NoMatchPolicy.parse text).toOption).getD .drop
  notePasses := ((lookup "LSYS_REWRITE_LOG_ITERATIONS").bind readBool?).getD false
  move := ((lookup "LSYS_TURTLE_MOVE_SYMBOL").bind readMove?).getD 'F'
  heading := ((lookup "LSYS_TURTLE_HEADING").bind readHeading?).getD .unitZ
  structured := ((lookup "LSYS_LOGGING_USE_STRUCTURED").bind readBool?).getD false
  console := ((lookup "LSYS_LOGGING_ENABLE_CONSOLE").bind readBool?).getD false
  level := ((lookup "LSYS_LOGGING_MIN_LEVEL").bind Level.parse?).getD .warning

/-- The alphabet of rules. -/
def alphabet (preferences : Preferences) : Alphabet :=
  if preferences.extendedDirections then .extended else .strict

/-- The level of the journal. -/
def journalLevel (preferences : Preferences) : Level := preferences.level.quieter .floor

/-- Where the journal goes: to a console if one is wanted, and on to the surrounding
program. -/
def sinks (preferences : Preferences) : List Sink :=
  let format : LineFormat := if preferences.structured then .structured else .plain
  (if preferences.console then [.console format preferences.journalLevel #[]] else []) ++
    [.relay #[]]

/-- The journal's service. -/
def service (preferences : Preferences) : LogService where
  level := preferences.journalLevel
  groupLevel := preferences.journalLevel
  sinks := preferences.sinks

/-- What a summary of the settings says of the journal. -/
def summary (preferences : Preferences) : String :=
  "Logging Configuration:\n- Log buffer size: " ++ toString Limits.journalSize ++
    "\n- Max message length: " ++ toString Limits.messageBytes ++
    "\n- Security min level: " ++ toString Limits.levelFloor ++
    "\n- Min log level: " ++ preferences.journalLevel.name ++
    "\n- Structured logging: " ++ toString preferences.structured ++
    "\n- Console logging: " ++ toString preferences.console

/-- What a running journal says of itself. -/
def diagnostics (preferences : Preferences) : String :=
  "=== Logging System Diagnostics ===\nInitialized: true\nActive level: " ++
    preferences.service.level.text ++ "\n\n" ++ preferences.summary

end Preferences

end Lindenmayer
