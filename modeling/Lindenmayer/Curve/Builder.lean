import Lindenmayer.Json
import Lindenmayer.Vector

/-!
# Curve builders

A turtle tells a builder what it draws in four kinds of events. A builder is any state
with a function for each kind. The recorder keeps the events themselves; two builders
can be told the same thing side by side.
-/

namespace Lindenmayer

/-- What a builder is told. -/
inductive CurveEvent where
  /-- The root path begins. -/
  | startPath (origin : Vector3)
  /-- The active path goes on to a point; the tangents are handles on either side. -/
  | extendPath (point incoming outgoing : Vector3)
  /-- A new path begins and becomes active. -/
  | branch (origin : Vector3)
  /-- The active path ends and the one around it becomes active; a path without a point
  behind its anchor is discarded. -/
  | endBranch (discard : Bool)
deriving BEq

/-- How a state takes each kind of event. -/
structure CurveBuilder (σ : Type) where
  startPath : Vector3 → σ → σ
  extendPath : (point incoming outgoing : Vector3) → σ → σ
  branch : Vector3 → σ → σ
  endBranch : (discard : Bool) → σ → σ

namespace CurveBuilder

variable {σ τ : Type}

/-- Take one event. -/
def take (builder : CurveBuilder σ) : CurveEvent → σ → σ
  | .startPath origin => builder.startPath origin
  | .extendPath point incoming outgoing => builder.extendPath point incoming outgoing
  | .branch origin => builder.branch origin
  | .endBranch discard => builder.endBranch discard

/-- Take events one after the other. -/
def replay (builder : CurveBuilder σ) (events : List CurveEvent) (state : σ) : σ :=
  events.foldl (fun state event => builder.take event state) state

/-- Keep the events, in order. -/
def recorder : CurveBuilder (Array CurveEvent) where
  startPath origin events := events.push (.startPath origin)
  extendPath point incoming outgoing events := events.push (.extendPath point incoming outgoing)
  branch origin events := events.push (.branch origin)
  endBranch discard events := events.push (.endBranch discard)

/-- Tell two builders. -/
def tee (first : CurveBuilder σ) (second : CurveBuilder τ) : CurveBuilder (σ × τ) where
  startPath origin := fun (s, t) => (first.startPath origin s, second.startPath origin t)
  extendPath point incoming outgoing := fun (s, t) =>
    (first.extendPath point incoming outgoing s, second.extendPath point incoming outgoing t)
  branch origin := fun (s, t) => (first.branch origin s, second.branch origin t)
  endBranch discard := fun (s, t) => (first.endBranch discard s, second.endBranch discard t)

@[simp] theorem replay_nil (builder : CurveBuilder σ) (state : σ) :
    builder.replay [] state = state := rfl

@[simp] theorem replay_cons (builder : CurveBuilder σ) (event : CurveEvent)
    (events : List CurveEvent) (state : σ) :
    builder.replay (event :: events) state = builder.replay events (builder.take event state) :=
  rfl

@[simp] theorem replay_append (builder : CurveBuilder σ) (first second : List CurveEvent)
    (state : σ) :
    builder.replay (first ++ second) state = builder.replay second (builder.replay first state) :=
  List.foldl_append

@[simp] theorem take_recorder (event : CurveEvent) (events : Array CurveEvent) :
    recorder.take event events = events.push event := by
  cases event <;> rfl

@[simp] theorem take_tee (first : CurveBuilder σ) (second : CurveBuilder τ)
    (event : CurveEvent) (s : σ) (t : τ) :
    (tee first second).take event (s, t) = (first.take event s, second.take event t) := by
  cases event <;> rfl

@[simp] theorem replay_recorder (told : List CurveEvent) (events : Array CurveEvent) :
    recorder.replay told events = events ++ told := by
  induction told generalizing events with
  | nil => simp
  | cons event rest ih =>
      rw [replay_cons, take_recorder, ih]
      simp

@[simp] theorem replay_tee (first : CurveBuilder σ) (second : CurveBuilder τ)
    (told : List CurveEvent) (s : σ) (t : τ) :
    (tee first second).replay told (s, t) = (first.replay told s, second.replay told t) := by
  induction told generalizing s t with
  | nil => rfl
  | cons event rest ih => rw [replay_cons, take_tee, ih, replay_cons, replay_cons]

end CurveBuilder

/-- A vector as a JSON array. -/
def Vector3.json (v : Vector3) : Json := .array [.double v.x, .double v.y, .double v.z]

/-- An event as a JSON object, its kind first. -/
def CurveEvent.json : CurveEvent → Json
  | startPath origin => .object [("event", .text "start_path"), ("origin", origin.json)]
  | extendPath point incoming outgoing =>
      .object
        [("event", .text "extend_path"), ("point", point.json),
          ("incoming_tangent", incoming.json), ("outgoing_tangent", outgoing.json)]
  | branch origin => .object [("event", .text "branch"), ("origin", origin.json)]
  | endBranch discard => .object [("event", .text "end_branch"), ("discard", .bool discard)]

/-- Events as a JSON array. -/
def CurveEvent.jsonAll (events : Array CurveEvent) : Json :=
  .array (events.toList.map CurveEvent.json)

end Lindenmayer
