import Lindenmayer.Curve.Skeleton
import Lindenmayer.Rule.Set
import Lindenmayer.Turtle.Walk

/-!
# Definitions

All that a run needs to know, in two sections: the grammar to be expanded, and the
turtle that walks along the outcome. The turtle's numbers are checked as a whole; rules
are left to be judged one by one.
-/

namespace Lindenmayer

/-- What is expanded, how often, and by which rules. -/
structure GrammarSection where
  start : String := "F"
  rules : List RuleEntry := []
  iterations : UInt32 := 0
  seed : UInt64 := 0
deriving BEq

/-- How the turtle walks; angles are in radians. -/
structure TurtleSection where
  /-- The length of the stem. -/
  baseLength : Float := 2.0
  /-- The angle of the axes that have none of their own; a sixth of a full turn. -/
  angle : Float := 1.0471975511965979
  yaw? : Option Float := none
  pitch? : Option Float := none
  roll? : Option Float := none
  jitterFraction : Float := 0.0
  jitterSeed : UInt64 := 0
  bevelDepth : Float := 0.0
  bevelResolution : UInt32 := 0
deriving BEq

/-- A grammar and a turtle. -/
structure Definition where
  grammar : GrammarSection := {}
  turtle : TurtleSection := {}
deriving BEq

/-- A number of the turtle that is out of its range. -/
inductive ParameterError where
  | baseLength (value : Float)
  | angle (value : Float)
  | yaw (value : Float)
  | pitch (value : Float)
  | roll (value : Float)
  | jitterFraction (value : Float)
  | bevelDepth (value : Float)
  | bevelResolution (value : UInt32)
deriving BEq

namespace ParameterError

/-- The finest bevel that curves can have. -/
def finestBevel : UInt32 := 32

/-- The field that holds the number. -/
def field : ParameterError → String
  | baseLength _ => "base_length"
  | angle _ => "angle"
  | yaw _ => "yaw_angle"
  | pitch _ => "pitch_angle"
  | roll _ => "roll_angle"
  | jitterFraction _ => "angle_jitter_fraction"
  | bevelDepth _ => "bevel_depth"
  | bevelResolution _ => "bevel_resolution"

/-- What the number should have been. -/
def reason : ParameterError → String
  | baseLength value => "must be a finite value >= 0, got " ++ Decimal.text value
  | angle value | yaw value | pitch value | roll value =>
      "must be finite, got " ++ Decimal.text value
  | jitterFraction value => "must be in [0, 1], got " ++ Decimal.text value
  | bevelDepth _ => "must be a finite value >= 0"
  | bevelResolution value =>
      "must be <= " ++ toString finestBevel.toNat ++ ", got " ++ toString value.toNat

end ParameterError

/-- Why there is no definition to work with. -/
inductive ConfigError where
  | unreadable (path reason : String)
  /-- A text that is no document, or a document that is no definition. -/
  | invalidDefinition (reason : String)
  | invalidParameter (error : ParameterError)
deriving BEq

namespace ConfigError

/-- The code of the error. -/
def code : ConfigError → Code
  | unreadable _ _ => .definitionUnreadable
  | invalidDefinition _ => .invalidDefinition
  | invalidParameter _ => .invalidParameter

/-- The error in words. -/
def message : ConfigError → String
  | unreadable path reason => "Cannot read definition '" ++ path ++ "': " ++ reason
  | invalidDefinition reason => "Invalid definition: " ++ reason
  | invalidParameter error => "Invalid parameter '" ++ error.field ++ "': " ++ error.reason

end ConfigError

/-- The rules of the section over an alphabet. -/
def GrammarSection.ruleSet (grammar : GrammarSection) (alphabet : Alphabet) : RuleSet :=
  ⟨alphabet, grammar.rules.toArray⟩

namespace TurtleSection

/-- The angle of each axis. -/
def angles (turtle : TurtleSection) : Angles where
  yaw := turtle.yaw?.getD turtle.angle
  pitch := turtle.pitch?.getD turtle.angle
  roll := turtle.roll?.getD turtle.angle

/-- The bevel of the curves. -/
def bevel (turtle : TurtleSection) : Bevel := ⟨turtle.bevelDepth, turtle.bevelResolution⟩

/-- A number that is finite and not negative. -/
def isExtent (value : Float) : Bool := value.isFinite && !(value < 0.0)

/-- Refuse a condition that does not hold. -/
def require (holds : Bool) (error : ParameterError) : Except ConfigError Unit :=
  if holds then .ok () else .error (.invalidParameter error)

/-- Refuse an angle that is given and not finite. -/
def requireFinite (angle? : Option Float) (error : Float → ParameterError) :
    Except ConfigError Unit :=
  match angle? with
  | none => .ok ()
  | some value => require value.isFinite (error value)

/-- Refuse numbers out of their ranges, the first of them in the order of the fields. -/
def validate (turtle : TurtleSection) : Except ConfigError Unit := do
  require (isExtent turtle.baseLength) (.baseLength turtle.baseLength)
  requireFinite turtle.angle .angle
  requireFinite turtle.yaw? .yaw
  requireFinite turtle.pitch? .pitch
  requireFinite turtle.roll? .roll
  require (Rule.inUnitInterval turtle.jitterFraction) (.jitterFraction turtle.jitterFraction)
  require (isExtent turtle.bevelDepth) (.bevelDepth turtle.bevelDepth)
  require (turtle.bevelResolution ≤ ParameterError.finestBevel)
    (.bevelResolution turtle.bevelResolution)

end TurtleSection

/-- Refuse a turtle with numbers out of their ranges. -/
def Definition.validate (definition : Definition) : Except ConfigError Unit :=
  definition.turtle.validate

end Lindenmayer
