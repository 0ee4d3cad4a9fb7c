/-!
# Vectors

Vectors of three doubles, and turns about an axis. The order of the operations is part
of each definition: sums are not rearranged.
-/

namespace Lindenmayer

/-- A point or a direction. -/
structure Vector3 where
  x : Float
  y : Float
  z : Float
deriving BEq, Inhabited

namespace Vector3

def zero : Vector3 := ⟨0.0, 0.0, 0.0⟩

def unitX : Vector3 := ⟨1.0, 0.0, 0.0⟩

def unitY : Vector3 := ⟨0.0, 1.0, 0.0⟩

def unitZ : Vector3 := ⟨0.0, 0.0, 1.0⟩

def add (a b : Vector3) : Vector3 := ⟨a.x + b.x, a.y + b.y, a.z + b.z⟩

def sub (a b : Vector3) : Vector3 := ⟨a.x - b.x, a.y - b.y, a.z - b.z⟩

def scale (a : Vector3) (s : Float) : Vector3 := ⟨a.x * s, a.y * s, a.z * s⟩

instance : Add Vector3 := ⟨add⟩

instance : Sub Vector3 := ⟨sub⟩

/-- The scalar product. -/
def dot (a b : Vector3) : Float := a.x * b.x + a.y * b.y + a.z * b.z

/-- The vector product. -/
def cross (a b : Vector3) : Vector3 :=
  ⟨a.y * b.z - b.y * a.z, a.z * b.x - b.z * a.x, a.x * b.y - b.x * a.y⟩

/-- One over the length. -/
def reciprocalLength (a : Vector3) : Float := 1.0 / (a.dot a).sqrt

/-- The vector of length one in the same direction. -/
def normalize (a : Vector3) : Vector3 := a.scale a.reciprocalLength

/-- The vector of length one in the same direction, if the length is neither zero nor
too small or large to be inverted. -/
def normalize? (a : Vector3) : Option Vector3 :=
  let r := a.reciprocalLength
  if r.isFinite && r > 0.0 then some (a.scale r) else none

/-- The vector turned by an angle about an axis of length one, by way of the quaternion
of the half angle. -/
def turn (v axis : Vector3) (angle : Float) : Vector3 :=
  let half := angle * 0.5
  let w := half.cos
  let b := axis.scale half.sin
  v.scale (w * w - b.dot b) + b.scale (v.dot b * 2.0) + (b.cross v).scale (w * 2.0)

end Vector3

end Lindenmayer
