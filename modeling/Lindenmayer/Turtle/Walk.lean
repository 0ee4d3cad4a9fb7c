import Lindenmayer.Code
import Lindenmayer.Curve.Builder
import Lindenmayer.Limits
import Lindenmayer.Random.Stream
import Lindenmayer.Turtle.Pose
import Lindenmayer.Word

/-!
# Walking along a word

A turtle takes the tokens of a word one by one. The move symbol is a step, which
extends the active path; direction marks turn the turtle, each by its nominal angle and
a random offset of its own; an opening bracket saves pose and path and begins a new
path, and the closing bracket goes back. Other symbols mean nothing to it.

The walk of a program (`walkAlong?`) is over at once where an offset can not be drawn. As long
as they can, it is `walkAlong`.
-/

namespace Lindenmayer

/-- What is wrong with the brackets of a word. -/
inductive StructuralError where
  /-- The token at the index closes a branch where none is open. -/
  | unmatchedPop (index : Nat)
  /-- Branches are open where the word ends. -/
  | unclosedBranches (opened : Nat)
  /-- The token at the index opens one branch too many. -/
  | stackOverflow (index depth limit : Nat)
deriving DecidableEq

namespace StructuralError

/-- The code of the error. -/
def code : StructuralError → Code
  | unmatchedPop _ => .unmatchedPop
  | unclosedBranches _ => .unclosedBranches
  | stackOverflow _ _ _ => .branchStackOverflow

/-- The error in words. -/
def message : StructuralError → String
  | unmatchedPop index => "']' at token " ++ toString index ++ " has no open branch"
  | unclosedBranches opened => toString opened ++ " branch(es) still open at end of sequence"
  | stackOverflow index depth limit =>
      "Branch stack overflow at token " ++ toString index ++ ": depth " ++ toString depth ++
        " exceeds " ++ toString limit

end StructuralError

/-- The nominal angle of each axis, in radians. -/
structure Angles where
  yaw : Float
  pitch : Float
  roll : Float
deriving BEq

namespace Angles

/-- One angle for all axes. -/
def uniform (angle : Float) : Angles := ⟨angle, angle, angle⟩

/-- The angle of an axis. -/
def about (angles : Angles) : Axis → Float
  | .yaw => angles.yaw
  | .pitch => angles.pitch
  | .roll => angles.roll

end Angles

/-- How a turtle walks. -/
structure TurtleSettings where
  step : Float
  angles : Angles
  /-- The greatest offset of a turn, as a fraction of an eighth of a full turn. -/
  jitterFraction : Float := 0.0
  jitterSeed : UInt64 := 0
  /-- The symbol that is a step. -/
  move : Char := 'F'
  heading : Vector3 := .unitZ
  origin : Vector3 := .zero
deriving BEq

namespace TurtleSettings

/-- Settings with offsets, whose fraction is brought into `[0, 1]`. -/
def withJitter (settings : TurtleSettings) (fraction : Float) (seed : UInt64) :
    TurtleSettings :=
  { settings with
    jitterFraction := if fraction < 0.0 then 0.0 else if fraction > 1.0 then 1.0 else fraction
    jitterSeed := seed }

/-- An eighth of a full turn. -/
def eighthTurn : Float := 0.7853981633974483

/-- The greatest offset of a turn, in radians. -/
def jitterBound (settings : TurtleSettings) : Float := settings.jitterFraction * eighthTurn

end TurtleSettings

/-- What a walk amounts to. -/
structure WalkSummary where
  forwardMoves : Nat := 0
  rotations : Nat := 0
  branches : Nat := 0
  /-- Branches that ended without a step of their own. -/
  discarded : Nat := 0
  /-- Most branches open at once. -/
  maxDepth : Nat := 0
  /-- Where the turtle stands at the end. -/
  finish : Vector3 := .zero
deriving BEq

/-- What an opening bracket saves: the pose, and the number of steps on the path that is
interrupted. -/
structure Frame where
  pose : Pose
  steps : Nat
deriving BEq

/-- A walk under way. -/
structure Walk (σ : Type) where
  /-- The state of the builder. -/
  drawing : σ
  pose : Pose
  /-- Steps on the active path. -/
  steps : Nat := 0
  /-- What the open brackets have saved, the innermost last. -/
  frames : Array Frame := #[]
  jitter : RandomStream
  summary : WalkSummary := {}

namespace Walk

variable {σ : Type}

/-- The walk before the first token. -/
def start (settings : TurtleSettings) (builder : CurveBuilder σ) (drawing : σ) : Walk σ :=
  let pose := Pose.facing settings.origin settings.heading
  { drawing := builder.startPath pose.position drawing
    pose
    jitter := .ofSeed settings.jitterSeed }

/-- A step forward. -/
def forward (settings : TurtleSettings) (builder : CurveBuilder σ) : Walk σ → Walk σ
  | ⟨drawing, pose, steps, frames, jitter, summary⟩ =>
      let displacement := pose.displacement settings.step
      let pose := pose.advance settings.step
      let point := pose.position
      { drawing := builder.extendPath point (point - displacement) (point + displacement) drawing
        pose
        steps := steps + 1
        frames
        jitter
        summary := { summary with forwardMoves := summary.forwardMoves + 1 } }

/-- The next offset, where one can be drawn; nothing is drawn where the greatest offset is not positive. -/
def offset (settings : TurtleSettings) (jitter : RandomStream) : Float × RandomStream :=
  if settings.jitterBound > 0.0 then jitter.symmetric settings.jitterBound else (0.0, jitter)

/-- A turn with an offset that has been drawn. -/
def rotateBy (settings : TurtleSettings) (turn : Direction) (walk : Walk σ) :
    Float × RandomStream → Walk σ
  | (offset, jitter) =>
      let angle := turn.sign * (settings.angles.about turn.axis + offset)
      { walk with
        pose := walk.pose.rotate turn.axis angle
        jitter
        summary := { walk.summary with rotations := walk.summary.rotations + 1 } }

/-- A turn. -/
def rotate (settings : TurtleSettings) (turn : Direction) (walk : Walk σ) : Walk σ :=
  walk.rotateBy settings turn (offset settings walk.jitter)

/-- Open a branch at the token with the given index. -/
def push (builder : CurveBuilder σ) (index : Nat) :
    Walk σ → Except StructuralError (Walk σ)
  | ⟨drawing, pose, steps, frames, jitter, summary⟩ =>
      if frames.size < Limits.branchStack then
        let depth := frames.size + 1
        .ok
          { drawing := builder.branch pose.position drawing
            pose
            steps := 0
            frames := frames.push ⟨pose, steps⟩
            jitter
            summary :=
              { summary with
                branches := summary.branches + 1
                maxDepth := max summary.maxDepth depth } }
      else .error (.stackOverflow index (frames.size + 1) Limits.branchStack)

/-- Close the innermost branch at the token with the given index. -/
def pop (builder : CurveBuilder σ) (index : Nat) :
    Walk σ → Except StructuralError (Walk σ)
  | ⟨drawing, _, steps, frames, jitter, summary⟩ =>
      match frames.back? with
      | none => .error (.unmatchedPop index)
      | some frame =>
          let discard := steps == 0
          .ok
            { drawing := builder.endBranch discard drawing
              pose := frame.pose
              steps := frame.steps
              frames := frames.pop
              jitter
              summary :=
                if discard then { summary with discarded := summary.discarded + 1 }
                else summary }

/-- Take the token with the given index. -/
def step (settings : TurtleSettings) (builder : CurveBuilder σ) (index : Nat) (t : Token)
    (walk : Walk σ) : Except StructuralError (Walk σ) :=
  match t with
  | .symbol letter =>
      .ok (if letter = settings.move then walk.forward settings builder else walk)
  | .direction turn => .ok (walk.rotate settings turn)
  | .push => walk.push builder index
  | .pop => walk.pop builder index
  | .assign | .finish => .ok walk

/-- Take the tokens of a word, the first of which has the given index. -/
def along (settings : TurtleSettings) (builder : CurveBuilder σ) :
    (index : Nat) → Word → Walk σ → Except StructuralError (Walk σ)
  | _, [], walk => .ok walk
  | index, t :: rest, walk =>
      match walk.step settings builder index t with
      | .ok walk => along settings builder (index + 1) rest walk
      | .error error => .error error

/-- The drawing and the summary, once no branch is open. -/
def close (walk : Walk σ) : Except StructuralError (σ × WalkSummary) :=
  if walk.frames.isEmpty then
    .ok (walk.drawing, { walk.summary with finish := walk.pose.position })
  else .error (.unclosedBranches walk.frames.size)

end Walk

/-- Walk along a whole word. -/
def walkAlong {σ : Type} (settings : TurtleSettings) (builder : CurveBuilder σ) (drawing : σ)
    (word : Word) : Except StructuralError (σ × WalkSummary) := do
  let walk ← (Walk.start settings builder drawing).along settings builder 0 word
  walk.close

/-! ## Walks that can be broken off -/

namespace Walk

variable {σ : Type}

/-- The next offset, or nothing where it can not be drawn. -/
def offset? (settings : TurtleSettings) (jitter : RandomStream) : Option (Float × RandomStream) :=
  if settings.jitterBound > 0.0 then jitter.symmetric? settings.jitterBound
  else some (0.0, jitter)

/-- Take the token with the given index, or nothing where that ends the program. -/
def step? (settings : TurtleSettings) (builder : CurveBuilder σ) (index : Nat) (t : Token)
    (walk : Walk σ) : Option (Except StructuralError (Walk σ)) :=
  match t with
  | .direction turn =>
      (offset? settings walk.jitter).map fun drawn => .ok (walk.rotateBy settings turn drawn)
  | .symbol _ | .push | .pop | .assign | .finish => some (walk.step settings builder index t)

/-- Take the tokens of a word, the first of which has the given index. -/
def along? (settings : TurtleSettings) (builder : CurveBuilder σ) :
    (index : Nat) → Word → Walk σ → Option (Except StructuralError (Walk σ))
  | _, [], walk => some (.ok walk)
  | index, t :: rest, walk =>
      match walk.step? settings builder index t with
      | some (.ok walk) => along? settings builder (index + 1) rest walk
      | some (.error error) => some (.error error)
      | none => none

end Walk

/-- Walk along a whole word, or break off with nothing where an offset can not be drawn. -/
def walkAlong? {σ : Type} (settings : TurtleSettings) (builder : CurveBuilder σ) (drawing : σ)
    (word : Word) : Option (Except StructuralError (σ × WalkSummary)) :=
  ((Walk.start settings builder drawing).along? settings builder 0 word).map (· >>= Walk.close)

end Lindenmayer
