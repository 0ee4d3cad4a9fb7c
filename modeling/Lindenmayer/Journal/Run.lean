import Lindenmayer.Journal.Event

/-!
# Runs

A run has an outcome, and the events that were entered in the journal on the way to it.
Runs follow one another up to the first that fails; the events of all of them are kept.
-/

namespace Lindenmayer

/-- An outcome and the events entered on the way, in order. -/
structure Run (ε α : Type) where
  outcome : Except ε α
  events : List Event := []

namespace Run

variable {ε ε' α β : Type}

/-- An outcome that enters nothing. -/
def of (outcome : Except ε α) : Run ε α := { outcome }

/-- Enter events. -/
def enter (events : List Event) : Run ε Unit := ⟨.ok (), events⟩

/-- An outcome, and what the stage it comes from enters. -/
def stage (outcome : Except ε α) (events : List Event) : Run ε α := ⟨outcome, events⟩

/-- One run after another. -/
def andThen (run : Run ε α) (next : α → Run ε β) : Run ε β :=
  match run with
  | ⟨.error error, events⟩ => ⟨.error error, events⟩
  | ⟨.ok value, events⟩ =>
      let after := next value
      ⟨after.outcome, events ++ after.events⟩

instance : Monad (Run ε) where
  pure value := of (.ok value)
  bind := andThen

/-- The run with its error seen as part of something larger. -/
def mapError (f : ε → ε') (run : Run ε α) : Run ε' α :=
  ⟨run.outcome.mapError f, run.events⟩

@[simp] theorem outcome_of (outcome : Except ε α) : (of outcome).outcome = outcome := rfl

@[simp] theorem outcome_enter (events : List Event) :
    (enter events : Run ε Unit).outcome = .ok () := rfl

@[simp] theorem outcome_stage (outcome : Except ε α) (events : List Event) :
    (stage outcome events).outcome = outcome := rfl

@[simp] theorem outcome_pure (value : α) : (pure value : Run ε α).outcome = .ok value := rfl

/-- What comes of two runs depends on their outcomes alone. -/
@[simp] theorem outcome_bind (run : Run ε α) (next : α → Run ε β) :
    (run >>= next).outcome = run.outcome >>= fun value => (next value).outcome := by
  rcases run with ⟨_ | value, events⟩ <;> rfl

end Run

end Lindenmayer
