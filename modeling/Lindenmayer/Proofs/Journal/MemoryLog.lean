import Mathlib.Data.List.DropRight
import Lindenmayer.Journal.MemoryLog

/-!
# Memory logs under any calls

A memory log is called to take an event or to forget all it holds. The events that its calls have
logged are those taken since they last made it forget.

* `MemoryLog.Keeps` says of a log and some events that the log holds the newest of them, as many
  as there is room for. One more event on both sides keeps that (`Keeps.push`), and so does any
  call (`Keeps.call`): a new log keeps what its calls have logged (`keeps_after`).
* Each event has one level, so the counts of a summary add up (`sum_atLevel`).
-/

namespace Lindenmayer

namespace MemoryLog

/-- What a memory log can be called to do. -/
inductive Call where
  | push (event : Event)
  | clear

/-- The log after a call. -/
def call (log : MemoryLog) : Call → MemoryLog
  | .push event => log.push event
  | .clear => log.clear

/-- The log after some calls. -/
def after (log : MemoryLog) (calls : List Call) : MemoryLog := calls.foldl call log

/-- The event that a call brings. -/
def Call.event? : Call → Option Event
  | .push event => some event
  | .clear => none

/-- The events of the calls behind the last one to clear. -/
def logged (calls : List Call) : List Event :=
  (calls.rtakeWhile fun next => next.event?.isSome).filterMap Call.event?

section

variable {calls : List Call}

theorem after_concat (log : MemoryLog) (next : Call) :
    log.after (calls ++ [next]) = (log.after calls).call next := by
  rw [after, List.foldl_append]
  rfl

theorem logged_push (event : Event) :
    logged (calls ++ [.push event]) = logged calls ++ [event] := by
  rw [logged, List.rtakeWhile_concat_pos _ _ _ rfl, List.filterMap_append]
  rfl

theorem logged_clear : logged (calls ++ [.clear]) = [] := by
  rw [logged, List.rtakeWhile_concat_neg _ _ _ (by simp [Call.event?])]
  rfl

/-- The calls that have logged the events follow on the last one to clear, or are all. -/
theorem exists_eq_append_logged (calls : List Call) :
    ∃ earlier, calls = earlier ++ (logged calls).map .push ∧
      (earlier = [] ∨ ∃ before, earlier = before ++ [.clear]) := by
  induction calls using List.reverseRecOn with
  | nil => exact ⟨[], rfl, .inl rfl⟩
  | append_singleton calls next ih =>
      cases next with
      | push event =>
          obtain ⟨earlier, hcalls, hearlier⟩ := ih
          refine ⟨earlier, ?_, hearlier⟩
          rw [logged_push, List.map_append, ← List.append_assoc, ← hcalls]
          rfl
      | clear =>
          refine ⟨calls ++ [.clear], ?_, .inr ⟨calls, rfl⟩⟩
          rw [logged_clear, List.map_nil, List.append_nil]

end

/-- The log holds the newest of the events, as many as there is room for. -/
structure Keeps (events : List Event) (log : MemoryLog) : Prop where
  newest : log.events <:+ events
  length_eq : log.events.length = min Limits.journalSize events.length

namespace Keeps

variable {events : List Event} {log : MemoryLog}

theorem empty : Keeps [] {} := ⟨List.suffix_rfl, rfl⟩

theorem length_le (h : Keeps events log) : log.events.length ≤ Limits.journalSize := by
  rw [h.length_eq]
  exact Nat.min_le_left _ _

/-- Before it is full, a log has lost nothing. -/
theorem eq_of_room (h : Keeps events log) (room : events.length ≤ Limits.journalSize) :
    log.events = events :=
  h.newest.eq_of_length (h.length_eq.trans (Nat.min_eq_right room))

theorem push (h : Keeps events log) (event : Event) :
    Keeps (events ++ [event]) (log.push event) := by
  refine ⟨?_, ?_⟩
  · obtain ⟨older, hevents⟩ := (List.drop_suffix _ log.events).trans h.newest
    exact ⟨older, by rw [MemoryLog.push, ← List.append_assoc, hevents]⟩
  · have hlength := h.length_eq
    rw [length_push log event h.length_le, List.length_append, List.length_singleton]
    omega

theorem clear (log : MemoryLog) : Keeps [] log.clear := empty

/-- What the calls have logged is kept by one more. -/
theorem call {calls : List Call} (h : Keeps (logged calls) log) (next : Call) :
    Keeps (logged (calls ++ [next])) (log.call next) := by
  cases next with
  | push event =>
      rw [logged_push]
      exact h.push event
  | clear =>
      rw [logged_clear]
      exact Keeps.clear log

end Keeps

/-- A new log keeps what its calls have logged. -/
theorem keeps_after (calls : List Call) : Keeps (logged calls) (after {} calls) := by
  induction calls using List.reverseRecOn with
  | nil => exact Keeps.empty
  | append_singleton calls next ih =>
      rw [after_concat]
      exact ih.call next

/-- Each event is at one level. -/
theorem sum_atLevel (log : MemoryLog) :
    (log.atLevel .error).length + (log.atLevel .warning).length + (log.atLevel .info).length +
      (log.atLevel .debug).length = log.events.length := by
  obtain ⟨events⟩ := log
  induction events with
  | nil => rfl
  | cons event events ih =>
      simp only [atLevel] at ih ⊢
      cases hlevel : event.level <;> simp [hlevel] <;> omega

/-- After any calls, a new log holds the last of the events logged since it was last cleared, in
their order: all of them up to a thousand, and never more. Its summary counts each of them at one
level, and critical ones among the errors only. -/
theorem newest_of_calls (calls : List Call) :
    let events := logged calls
    let log := after {} calls
    (∃ earlier, calls = earlier ++ events.map .push ∧
        (earlier = [] ∨ ∃ before, earlier = before ++ [.clear])) ∧
      log.events <:+ events ∧ log.events.length = min 1000 events.length ∧
      log.events.length ≤ 1000 ∧
      (events.length ≤ 1000 → log.events = events) ∧
      log.summary.total = log.events.length ∧
      log.summary.errors + log.summary.warnings + log.summary.infos + log.summary.debugs =
        log.summary.total ∧
      log.summary.critical ≤ log.summary.errors := by
  intro events log
  have hkeeps : Keeps events log := keeps_after calls
  have hlogged := exists_eq_append_logged calls
  exact ⟨hlogged, hkeeps.newest, hkeeps.length_eq, hkeeps.length_le, hkeeps.eq_of_room, rfl,
    sum_atLevel log, List.length_filter_le _ _⟩

end MemoryLog

end Lindenmayer
