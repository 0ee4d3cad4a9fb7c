import Lindenmayer.Generation
import Lindenmayer.Proofs.Rule.Compiling
import Lindenmayer.Proofs.Turtle.Breaking

/-!
# Definitions with numbers in range

* A turtle is accepted if all its numbers are in range (`TurtleSection.validate_eq_ok_iff`).
* Then its offsets can be drawn, so that no walk for the definition is broken off
  (`Definition.walkAlong?_eq_some`).
-/

namespace Lindenmayer

namespace TurtleSection

theorem require_eq_ok_iff {holds : Bool} {error : ParameterError} {u : Unit} :
    require holds error = .ok u ↔ holds = true := by
  cases holds <;> simp [require]

theorem requireFinite_eq_ok_iff {angle? : Option Float} {error : Float → ParameterError}
    {u : Unit} : requireFinite angle? error = .ok u ↔ ∀ x, angle? = some x → x.isFinite = true := by
  cases angle? <;> simp [requireFinite, require_eq_ok_iff]

/-- What a turtle with its numbers in range has. -/
theorem validate_eq_ok_iff {turtle : TurtleSection} :
    turtle.validate = .ok () ↔
      isExtent turtle.baseLength = true ∧ turtle.angle.isFinite = true ∧
      (∀ x, turtle.yaw? = some x → x.isFinite = true) ∧
      (∀ x, turtle.pitch? = some x → x.isFinite = true) ∧
      (∀ x, turtle.roll? = some x → x.isFinite = true) ∧
      Rule.inUnitInterval turtle.jitterFraction = true ∧
      isExtent turtle.bevelDepth = true ∧
      turtle.bevelResolution ≤ ParameterError.finestBevel := by
  simp [validate, bind_eq_ok_iff, require_eq_ok_iff, requireFinite_eq_ok_iff]

end TurtleSection

namespace Definition

variable {definition : Definition}

theorem drawable_turtleSettings (h : definition.validate = .ok ()) (preferences : Preferences)
    (step : Float) : (definition.turtleSettings preferences step).Drawable := by
  obtain ⟨-, -, -, -, -, hfraction, -⟩ := TurtleSection.validate_eq_ok_iff.1 h
  obtain ⟨hnonneg, hle⟩ := Rule.inUnitInterval_iff.1 hfraction
  exact TurtleSettings.drawable_of_le_one hnonneg hle

/-- The walk for a definition in range is never broken off, whatever the word. -/
theorem walkAlong?_eq_some (h : definition.validate = .ok ()) (preferences : Preferences)
    (step : Float) {σ : Type} (builder : CurveBuilder σ) (drawing : σ) (word : Word) :
    walkAlong? (definition.turtleSettings preferences step) builder drawing word =
      some (walkAlong (definition.turtleSettings preferences step) builder drawing word) :=
  walkAlong?_of_manages _ builder drawing (.inl (drawable_turtleSettings h preferences step))

end Definition

end Lindenmayer
