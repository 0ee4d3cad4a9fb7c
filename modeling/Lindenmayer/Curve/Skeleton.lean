import Lindenmayer.Curve.Builder

/-!
# Skeletons

A builder that makes each path a Bezier spline. A path that is extended gives its last
point handles towards the new one; a branch that ends without a second point is taken
out again.
-/

namespace Lindenmayer

/-- A control point and the handles on its two sides. -/
structure CurvePoint where
  co : Vector3
  handleLeft : Vector3
  handleRight : Vector3
deriving BEq, Inhabited

/-- The first point of a path: its handles lie in the point itself. -/
def CurvePoint.anchor (co : Vector3) : CurvePoint := ⟨co, co, co⟩

/-- The points of one path, in order. -/
abbrev Spline := Array CurvePoint

/-- How thick the splines are to be drawn. -/
structure Bevel where
  depth : Float := 0.0
  resolution : UInt32 := 0
deriving BEq

/-- The splines of all paths, in the order in which they began. -/
structure Skeleton where
  splines : Array Spline := #[]
  bevel : Bevel := {}
deriving BEq

namespace Skeleton

/-- Number of points of all splines. -/
def pointCount (skeleton : Skeleton) : Nat :=
  skeleton.splines.foldl (fun count spline => count + spline.size) 0

def pointJson (point : CurvePoint) : Json :=
  .object
    [("co", point.co.json), ("handle_left", point.handleLeft.json),
      ("handle_right", point.handleRight.json)]

def splineJson (spline : Spline) : Json :=
  .object [("points", .array (spline.toList.map pointJson))]

/-- The skeleton as a JSON object. -/
def json (skeleton : Skeleton) : Json :=
  .object
    [("splines", .array (skeleton.splines.toList.map splineJson)),
      ("bevel",
        .object
          [("depth", .double skeleton.bevel.depth),
            ("resolution", .whole skeleton.bevel.resolution.toNat)])]

end Skeleton

/-- A skeleton in the making: the splines so far and the places among them of those that
are open, the innermost first. -/
structure SkeletonState where
  splines : Array Spline := #[]
  opened : List Nat := []
deriving BEq

namespace SkeletonState

/-- Begin a path, which becomes active. -/
def openPath (origin : Vector3) : SkeletonState → SkeletonState
  | ⟨splines, opened⟩ =>
      let place := splines.size
      ⟨splines.push #[.anchor origin], place :: opened⟩

/-- A spline with one point more, towards and from which the handles of the last point
so far and of the new one point. -/
def extendSpline (point incoming outgoing : Vector3) (spline : Spline) : Spline :=
  let displacement := point - incoming
  let bent := spline.modify (spline.size - 1) fun last =>
    { last with
      handleLeft := last.co - displacement
      handleRight := last.co + displacement }
  bent.push ⟨point, incoming, outgoing⟩

/-- Extend the active path; without one nothing happens. -/
def extend (point incoming outgoing : Vector3) : SkeletonState → SkeletonState
  | ⟨splines, []⟩ => ⟨splines, []⟩
  | ⟨splines, active :: outer⟩ =>
      ⟨splines.modify active (extendSpline point incoming outgoing), active :: outer⟩

/-- Close the active path unless it is the only one open, and take it out if it is to be
discarded. Paths that began inside it are closed, so those still open keep their places. -/
def close (discard : Bool) : SkeletonState → SkeletonState
  | ⟨splines, active :: parent :: outer⟩ =>
      ⟨if discard then splines.eraseIdxIfInBounds active else splines, parent :: outer⟩
  | state => state

/-- The builder of skeletons. -/
def builder : CurveBuilder SkeletonState where
  startPath := openPath
  extendPath := extend
  branch := openPath
  endBranch := close

/-- The skeleton made so far. -/
def skeleton (state : SkeletonState) (bevel : Bevel) : Skeleton := ⟨state.splines, bevel⟩

end SkeletonState

end Lindenmayer
