import Lindenmayer.Journal.MemoryLog

/-!
# Log services

A service hands the events of its level on to a group of sinks, which has a level of
its own. Sinks keep what they are given: a memory log its newest events, a console its
lines, a relay the records for a logging system of the surrounding program.
-/

namespace Lindenmayer

/-- How a console writes events. -/
inductive LineFormat where
  | plain
  /-- JSON objects, one a line. -/
  | structured
deriving DecidableEq

/-- The line of an event. -/
def LineFormat.line : LineFormat → Event → String
  | plain, event => event.line
  | structured, event => event.json.compact

/-- Where events go. -/
inductive Sink where
  | memory (log : MemoryLog)
  | console (format : LineFormat) (level : Level) (lines : Array String)
  | relay (records : Array String)
deriving DecidableEq

namespace Sink

/-- Take an event. -/
def take (event : Event) : Sink → Sink
  | memory log => memory (log.push event)
  | console format level lines =>
      console format level
        (if level.admits event.level then lines.push (format.line event) else lines)
  | relay records => relay (records.push (event.level.text ++ " " ++ event.line))

end Sink

/-- A service: its level, and the group of sinks behind it with theirs. -/
structure LogService where
  level : Level
  groupLevel : Level
  sinks : List Sink
deriving DecidableEq

namespace LogService

/-- The service takes events of a level. -/
def takes (service : LogService) (level : Level) : Bool := service.level.admits level

/-- Hand an event to every sink if both levels admit it. -/
def log (service : LogService) (event : Event) : LogService :=
  if service.takes event.level && service.groupLevel.admits event.level then
    { service with sinks := service.sinks.map (Sink.take event) }
  else service

/-- Events one after the other. -/
def logAll (service : LogService) (events : List Event) : LogService :=
  events.foldl log service

/-- The first memory log behind the service. -/
def memory? (service : LogService) : Option MemoryLog :=
  service.sinks.findSome? fun
    | .memory log => some log
    | _ => none

/-- Empty the memory logs. -/
def clear (service : LogService) : LogService :=
  { service with
    sinks := service.sinks.map fun
      | .memory log => .memory log.clear
      | sink => sink }

/-- The lines on consoles. -/
def consoleLines (service : LogService) : List String :=
  service.sinks.flatMap fun
    | .console _ _ lines => lines.toList
    | _ => []

/-- The records relayed. -/
def relayed (service : LogService) : List String :=
  service.sinks.flatMap fun
    | .relay records => records.toList
    | _ => []

end LogService

end Lindenmayer
