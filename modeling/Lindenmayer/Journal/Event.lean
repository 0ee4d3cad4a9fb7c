import Lindenmayer.Code
import Lindenmayer.Json
import Lindenmayer.Limits
import Lindenmayer.Position
import Lindenmayer.Text.Cut

/-!
# Events

What a journal is made of: a level, a code, a message, at times a place in a text, and
a context of named values. An event has a line of text and a JSON object.
-/

namespace Lindenmayer

/-- How loud an event is. -/
inductive Level where
  | error
  | warning
  | info
  | debug
deriving DecidableEq

namespace Level

/-- Louder levels have smaller numbers. -/
def number : Level → Nat
  | error => 0
  | warning => 1
  | info => 2
  | debug => 3

/-- The level as written in lines. -/
def text : Level → String
  | error => "ERROR"
  | warning => "WARN"
  | info => "INFO"
  | debug => "DEBUG"

/-- The level as named in summaries. -/
def name : Level → String
  | error => "Error"
  | warning => "Warning"
  | info => "Info"
  | debug => "Debug"

/-- A journal kept at this level takes events of the other. -/
def admits (kept level : Level) : Bool := level.number ≤ kept.number

/-- The quieter of two levels. -/
def quieter (a b : Level) : Level := if a.number < b.number then b else a

end Level

/-- One entry of a journal. The context is sorted by its keys, each of which it has once. -/
structure Event where
  level : Level
  code : Code
  message : String
  span? : Option Span := none
  context : List (String × String) := []
deriving DecidableEq

namespace Event

def error (code : Code) (message : String) : Event := { level := .error, code, message }

def warning (code : Code) (message : String) : Event := { level := .warning, code, message }

def success (code : Code) (message : String) : Event := { level := .info, code, message }

def info (message : String) : Event := { level := .info, code := .info, message }

def debug (message : String) : Event := { level := .debug, code := .debug, message }

/-- A context with a value put under a key. -/
def put (key value : String) : List (String × String) → List (String × String)
  | [] => [(key, value)]
  | (k, v) :: rest =>
      if key < k then (key, value) :: (k, v) :: rest
      else if key = k then (key, value) :: rest
      else (k, v) :: put key value rest

/-- The event with further values in its context; the last under a key stays. -/
def noting (event : Event) (values : List (String × String)) : Event :=
  { event with
    context := values.foldl (fun context entry => put entry.1 entry.2 context) event.context }

/-- The event at a place in a text. -/
def at? (event : Event) (span? : Option Span) : Event := { event with span? }

/-- The event with its message cut to `Limits.messageBytes`. -/
def cut (event : Event) : Event :=
  { event with message := Text.cut Limits.messageBytes event.message }

/-- The event as it is entered in a journal: its message cut, and with these values. -/
def entered (event : Event) (values : List (String × String)) : Event :=
  event.cut.noting values

/-- The event on one line. -/
def line (event : Event) : String :=
  let place := match event.span? with
    | some span => " at " ++ span.first.text
    | none => ""
  let context := event.context.map fun entry => " " ++ entry.1 ++ "=" ++ entry.2
  "[" ++ event.level.text ++ "] " ++ event.code.text ++ " - " ++ event.message ++ place ++
    String.join context

/-- What the registry says of an error's code. -/
def errorJson (code : Code) : Json :=
  .object
    [("recoverable", .bool code.recoverable), ("requires_halt", .bool code.halts),
      ("description", .text code.description), ("recommended_action", .text code.action)]

/-- A span by lines and columns. -/
def spanJson (span : Span) : Json :=
  .object
    [("start_line", .whole span.first.line.toNat),
      ("start_column", .whole span.first.column.toNat),
      ("end_line", .whole span.last.line.toNat), ("end_column", .whole span.last.column.toNat)]

/-- The event as a JSON object. Errors carry what the registry says of them. -/
def json (event : Event) : Json :=
  .object <|
    [("level", .text event.level.text), ("code", .text event.code.text),
      ("message", .text event.message), ("category", .text event.code.category),
      ("severity", .text event.code.severity.text)] ++
    (if event.level = .error then [("error_metadata", errorJson event.code)] else []) ++
    (match event.span? with
      | some span => [("span", spanJson span)]
      | none => []) ++
    (if event.context.isEmpty then []
      else [("context", .object (event.context.map fun entry => (entry.1, .text entry.2)))])

end Event

end Lindenmayer
