import Lindenmayer.Proofs.Double.Bounds
import Lindenmayer.Proofs.Double.Sums
import Lindenmayer.Proofs.Turtle.Stepping

/-!
# Walks that are broken off

A program is over where the turtle turns and the interval of its offsets is too wide to draw from.

* Intervals are not too wide up to an eighth of a full turn (`drawable_of_le_one`), so that
  those of a fraction that was brought into range are not (`drawable_withJitter`).
* Whether offsets can be drawn is settled by the settings (`offset?_of_drawable`), so that it is the
  first turn that breaks a walk off (`step?_direction`).
* As long as all turns can be made, nothing is broken off (`walkAlong?_of_manages`).
-/

namespace Lindenmayer

namespace RandomStream

theorem unpack_topFraction :
    topFraction.toModel.unpack = .finite .positive (2 ^ 53 - 2) (-53) (by decide) := rfl

/-- The width of an interval is twice its bound, and is divided by almost one. -/
theorem isFinite_firstScale {bound : Float} {k : ℤ} (h : Double.Within k bound.toModel.unpack)
    (hleast : -1074 < k) (hmost : k ≤ 967) : (firstScale bound).isFinite = true := by
  have hneg : Double.Within k (-bound).toModel.unpack := by
    rw [Double.unpack_neg]
    exact h.neg
  have hwidth : Double.Within (k + 2) (bound - -bound).toModel.unpack :=
    h.sub hneg (by omega) (by omega)
  have hscale : Double.Within (k + 2 - -53 - 51) (firstScale bound).toModel.unpack := by
    have := hwidth.div .positive (by decide : 0 < 2 ^ 53 - 2) (f := -53) (by decide) (by omega)
      (by omega)
    rwa [← unpack_topFraction] at this
  exact hscale.isFinite

end RandomStream

namespace TurtleSettings

/-- The interval of the offsets is not too wide, if there is one. -/
def Drawable (settings : TurtleSettings) : Prop :=
  settings.jitterBound > 0.0 → (RandomStream.firstScale settings.jitterBound).isFinite = true

theorem unpack_eighthTurn :
    eighthTurn.toModel.unpack = .finite .positive 7074237752028440 (-53) (by decide) := rfl

/-- A fraction of an eighth of a full turn is not too wide. -/
theorem drawable_of_le_one {settings : TurtleSettings} (hnonneg : 0.0 ≤ settings.jitterFraction)
    (hle : settings.jitterFraction ≤ 1.0) : settings.Drawable := by
  intro _
  have hone : (1.0 : Float).toModel.unpack = .finite .positive (2 ^ 52) (-52) (by decide) := rfl
  have hfraction := Double.within_of_le hnonneg hle hone
  have heighth : Double.Within (-53) eighthTurn.toModel.unpack := by
    rw [unpack_eighthTurn]
    exact .finite .positive _ ⟨by decide, by decide, by decide⟩ (Int.le_refl _)
  have hbound : Double.Within (-52 + -53 + 54) settings.jitterBound.toModel.unpack :=
    hfraction.mul heighth (by decide) (by decide)
  exact RandomStream.isFinite_firstScale hbound (by decide) (by decide)

/-- Nothing is drawn for a fraction that is no number. -/
theorem drawable_of_notANumber {settings : TurtleSettings}
    (h : settings.jitterFraction.toModel.unpack = .notANumber) : settings.Drawable := by
  intro hpos
  have hbound : settings.jitterBound.toModel.unpack = .notANumber := by
    show Double.held (.mul .binary64 settings.jitterFraction.toModel.unpack _) = _
    rw [h]
    rfl
  have hlt := Double.lt_iff.1 hpos
  rw [hbound] at hlt
  cases hlt

/-- A fraction that is brought into range is in range, unless it is no number. -/
theorem jitterFraction_withJitter (settings : TurtleSettings) (fraction : Float) (seed : UInt64) :
    let kept := (settings.withJitter fraction seed).jitterFraction
    0.0 ≤ kept ∧ kept ≤ 1.0 ∨ kept.toModel.unpack = .notANumber := by
  intro kept
  have hkept : kept =
      if fraction < 0.0 then 0.0 else if fraction > 1.0 then 1.0 else fraction := rfl
  rw [hkept]
  have hone : (0.0 : Float) ≤ 1.0 := by decide +kernel
  by_cases hneg : fraction < 0.0
  · rw [if_pos hneg]
    exact .inl ⟨by decide +kernel, hone⟩
  rw [if_neg hneg]
  by_cases habove : fraction > 1.0
  · rw [if_pos habove]
    exact .inl ⟨hone, by decide +kernel⟩
  rw [if_neg habove]
  by_cases hnonneg : 0.0 ≤ fraction
  · have hle : fraction ≤ 1.0 :=
      Classical.not_not.1 fun hnot => habove ((Double.not_le_iff hnonneg hone).1 hnot)
    exact .inl ⟨hnonneg, hle⟩
  · exact .inr (Double.unpack_of_not_le hnonneg hneg)

theorem drawable_withJitter (settings : TurtleSettings) (fraction : Float) (seed : UInt64) :
    (settings.withJitter fraction seed).Drawable := by
  rcases jitterFraction_withJitter settings fraction seed with ⟨hnonneg, hle⟩ | hnan
  · exact drawable_of_le_one hnonneg hle
  · exact drawable_of_notANumber hnan

/-- All turns of the word can be made. -/
def Manages (settings : TurtleSettings) (word : Word) : Prop :=
  settings.Drawable ∨ ∀ turn, .direction turn ∉ word

variable {settings : TurtleSettings}

theorem manages_nil : settings.Manages [] := .inr fun _ => List.not_mem_nil

theorem Manages.of_cons {t : Token} {rest : Word} (h : settings.Manages (t :: rest)) :
    settings.Manages rest :=
  h.imp_right fun hnone turn hturn => hnone turn (List.mem_cons_of_mem t hturn)

theorem Manages.cons_other {t : Token} {rest : Word} (h : settings.Manages rest)
    (ht : ∀ turn, .direction turn ≠ t) : settings.Manages (t :: rest) :=
  h.imp_right fun hnone turn => List.not_mem_cons_of_ne_of_not_mem (ht turn) (hnone turn)

/-- A word that can not be managed can be managed up to its first turn. -/
theorem exists_turn_of_not_manages {word : Word} (h : ¬ settings.Manages word) :
    ¬ settings.Drawable ∧
      ∃ u turn v, word = u ++ .direction turn :: v ∧ settings.Manages u := by
  refine ⟨fun hdrawable => h (.inl hdrawable), ?_⟩
  induction word with
  | nil => exact absurd manages_nil h
  | cons t rest ih =>
      cases t with
      | direction turn => exact ⟨[], turn, rest, rfl, manages_nil⟩
      | symbol | push | pop | assign | finish =>
          have hrest : ¬ settings.Manages rest := fun hrest => h (hrest.cons_other nofun)
          obtain ⟨u, turn, v, rfl, hu⟩ := ih hrest
          exact ⟨_ :: u, turn, v, rfl, hu.cons_other nofun⟩

end TurtleSettings

namespace Walk

variable {σ : Type} {settings : TurtleSettings} {builder : CurveBuilder σ}

theorem offset?_of_drawable (h : settings.Drawable) (jitter : RandomStream) :
    offset? settings jitter = some (offset settings jitter) := by
  unfold offset? offset
  split
  · next hbound => exact if_pos (h hbound)
  · rfl

theorem offset?_of_not_drawable (h : ¬ settings.Drawable) (jitter : RandomStream) :
    offset? settings jitter = none := by
  obtain ⟨hbound, hwide⟩ := Classical.not_imp.1 h
  rw [offset?, if_pos hbound]
  exact if_neg hwide

/-- A turn is made, or it breaks the walk off. -/
theorem step?_direction (index : Nat) (turn : Direction) (walk : Walk σ) :
    (settings.Drawable →
      walk.step? settings builder index (.direction turn) =
        some (walk.step settings builder index (.direction turn))) ∧
    (¬ settings.Drawable →
      walk.step? settings builder index (.direction turn) = none) := by
  constructor
  · intro h
    rw [step?, offset?_of_drawable h]
    rfl
  · intro h
    rw [step?, offset?_of_not_drawable h]
    rfl

theorem step?_of_manages {t : Token} {rest : Word} (h : settings.Manages (t :: rest))
    (index : Nat) (walk : Walk σ) :
    walk.step? settings builder index t = some (walk.step settings builder index t) := by
  cases t with
  | direction turn =>
      have hdrawable : settings.Drawable :=
        h.resolve_right fun hnone => hnone turn List.mem_cons_self
      exact (step?_direction index turn walk).1 hdrawable
  | symbol | push | pop | assign | finish => rfl

/-- What is left of a walk after a token, or after some. -/
def goOn? (settings : TurtleSettings) (builder : CurveBuilder σ) (index : Nat) (rest : Word) :
    Except StructuralError (Walk σ) → Option (Except StructuralError (Walk σ))
  | .ok walk => walk.along? settings builder index rest
  | .error error => some (.error error)

theorem along?_cons (index : Nat) (t : Token) (rest : Word) (walk : Walk σ) :
    walk.along? settings builder index (t :: rest) =
      (walk.step? settings builder index t).bind (goOn? settings builder (index + 1) rest) := by
  rw [along?]
  rcases walk.step? settings builder index t with _ | error | next <;> rfl

theorem along?_append (index : Nat) (u v : Word) (walk : Walk σ) :
    walk.along? settings builder index (u ++ v) =
      (walk.along? settings builder index u).bind
        (goOn? settings builder (index + u.length) v) := by
  induction u generalizing index walk with
  | nil => rfl
  | cons t rest ih =>
      rw [List.cons_append, along?_cons, along?_cons]
      rcases walk.step? settings builder index t with _ | error | next
      · rfl
      · rfl
      · have hlength : index + (t :: rest).length = index + 1 + rest.length := by
          rw [List.length_cons]
          omega
        rw [hlength]
        exact ih (index + 1) next

/-- Where all turns can be made, nothing is broken off. -/
theorem along?_of_manages {word : Word} (h : settings.Manages word) (index : Nat)
    (walk : Walk σ) :
    walk.along? settings builder index word = some (walk.along settings builder index word) := by
  induction word generalizing index walk with
  | nil => rfl
  | cons t rest ih =>
      rw [along?_cons, along_cons, step?_of_manages h]
      cases walk.step settings builder index t with
      | error error => rfl
      | ok next => exact ih h.of_cons (index + 1) next

end Walk

theorem walkAlong?_of_manages {σ : Type} (settings : TurtleSettings) (builder : CurveBuilder σ)
    (drawing : σ) {word : Word} (h : settings.Manages word) :
    walkAlong? settings builder drawing word =
      some (walkAlong settings builder drawing word) := by
  rw [walkAlong?, Walk.along?_of_manages h]
  rfl

end Lindenmayer
