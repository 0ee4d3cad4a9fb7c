import Lindenmayer.Journal.Event

/-!
# Memory logs

A memory log holds the newest events it was given, at most `Limits.journalSize` of
them, the oldest first.
-/

namespace Lindenmayer

/-- The events held. -/
structure MemoryLog where
  events : List Event := []
deriving DecidableEq

/-- How many events of each level a log holds. -/
structure LogSummary where
  total : Nat
  errors : Nat
  warnings : Nat
  infos : Nat
  debugs : Nat
  /-- Errors whose code halts the run. -/
  critical : Nat
deriving DecidableEq

namespace MemoryLog

/-- One event more; the oldest gives way where there is no room. -/
def push (log : MemoryLog) (event : Event) : MemoryLog where
  events := log.events.drop (log.events.length + 1 - Limits.journalSize) ++ [event]

/-- Events one after the other. -/
def pushAll (log : MemoryLog) (events : List Event) : MemoryLog := events.foldl push log

/-- No event is held any more. -/
def clear (_ : MemoryLog) : MemoryLog := {}

/-- The events at a level. -/
def atLevel (log : MemoryLog) (level : Level) : List Event :=
  log.events.filter fun event => event.level = level

/-- The events with a code. -/
def withCode (log : MemoryLog) (code : Code) : List Event :=
  log.events.filter fun event => event.code = code

/-- An event at a level has a code. -/
def has (log : MemoryLog) (level : Level) (code : Code) : Bool :=
  (log.atLevel level).any fun event => event.code = code

/-- The counts of the events held. -/
def summary (log : MemoryLog) : LogSummary where
  total := log.events.length
  errors := (log.atLevel .error).length
  warnings := (log.atLevel .warning).length
  infos := (log.atLevel .info).length
  debugs := (log.atLevel .debug).length
  critical := ((log.atLevel .error).filter fun event => event.code.halts).length

/-- There is room for every event up to the size of the log. -/
theorem length_push (log : MemoryLog) (event : Event)
    (h : log.events.length ≤ Limits.journalSize) :
    (log.push event).events.length = min Limits.journalSize (log.events.length + 1) := by
  simp only [push, List.length_append, List.length_drop, List.length_singleton]
  have : 0 < Limits.journalSize := by decide
  omega

end MemoryLog

end Lindenmayer
