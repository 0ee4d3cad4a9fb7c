import Lindenmayer.Token
import Lindenmayer.Vector

/-!
# Poses

Where a turtle stands and which way it faces. Turns are about the axes of space, not
the turtle's own: yaw about x, pitch about y, roll about z.
-/

namespace Lindenmayer

/-- The axis of space that a direction mark turns about. -/
def Axis.unit : Axis → Vector3
  | yaw => .unitX
  | pitch => .unitY
  | roll => .unitZ

/-- Position and heading; the heading has length one. -/
structure Pose where
  position : Vector3 := .zero
  heading : Vector3 := .unitZ
deriving BEq

namespace Pose

/-- The pose at a position facing a direction, or the z axis if the direction has no
usable length. -/
def facing (position direction : Vector3) : Pose where
  position := position
  heading := direction.normalize?.getD .unitZ

/-- Turn about an axis, clockwise when looking along it. -/
def rotate (pose : Pose) (axis : Axis) (angle : Float) : Pose :=
  { pose with heading := (pose.heading.turn axis.unit (-angle)).normalize }

/-- The way that a step leads. -/
def displacement (pose : Pose) (step : Float) : Vector3 := pose.heading.scale step

/-- Step forward. -/
def advance (pose : Pose) (step : Float) : Pose :=
  { pose with position := pose.position + pose.displacement step }

end Pose

end Lindenmayer
