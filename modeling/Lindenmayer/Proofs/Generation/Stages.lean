import Lindenmayer.Generation
import Lindenmayer.Proofs.Outcome

/-!
# The stages of a generation

What it takes to expand a definition (`expand_eq_ok`), and what a generation comes to once
that is done: what the walk along the expanded word comes to (`generate_of_expand`).
-/

namespace Lindenmayer.Definition

/-- The expander of the definition. -/
def expander (definition : Definition) (preferences : Preferences) : Expander :=
  { table := (definition.compile preferences).table, policy := preferences.noMatch }

/-- The step that is fitted to a word. -/
def fittedStep (definition : Definition) (preferences : Preferences) (word : Word) : Float :=
  Turtle.stepLength (Turtle.stemMoves preferences.move word) definition.turtle.baseLength

/-- The turtle of the definition, with its step fitted to a word. -/
def fitted (definition : Definition) (preferences : Preferences) (word : Word) :
    TurtleSettings :=
  definition.turtleSettings preferences (definition.fittedStep preferences word)

theorem move_fitted (definition : Definition) (preferences : Preferences) (word : Word) :
    (definition.fitted preferences word).move = preferences.move := rfl

variable {definition : Definition} {preferences : Preferences} {expansion : Expansion}

/-- What comes of an expansion, the events on the way left out. -/
theorem outcome_expand (definition : Definition) (preferences : Preferences) :
    (definition.expand preferences).outcome =
      definition.validate.mapError .config >>= fun _ =>
      (Word.parse definition.grammar.start).mapError .start >>= fun start =>
      let expanded := (definition.expander preferences).expand definition.grammar.iterations.toNat
        start { stream := .ofSeed definition.grammar.seed }
      expanded.1.mapError .expansion >>= fun word =>
      .ok ⟨word, (definition.compile preferences).reports, expanded.2.metrics⟩ := by
  unfold expand
  simp only [Run.outcome_bind, Run.outcome_of, Run.outcome_stage, Run.outcome_enter]
  rfl

/-- A definition is expanded by reading its start word and making its passes. -/
theorem expand_eq_ok (h : (definition.expand preferences).outcome = .ok expansion) :
    definition.validate = .ok () ∧ ∃ start progress,
      Word.parse definition.grammar.start = .ok start ∧
      (definition.expander preferences).expand definition.grammar.iterations.toNat start
        { stream := .ofSeed definition.grammar.seed } = (.ok expansion.word, progress) ∧
      expansion.metrics = progress.metrics ∧
      expansion.reports = (definition.compile preferences).reports := by
  simp only [outcome_expand, bind_eq_ok_iff, mapError_eq_ok_iff] at h
  obtain ⟨⟨⟩, hvalid, start, hstart, word, hword, hdone⟩ := h
  cases hdone
  exact ⟨hvalid, start, _, hstart, Prod.ext hword rfl, rfl, rfl⟩

/-- Once a definition is expanded, what the walk comes to decides. -/
theorem generate_of_expand (h : (definition.expand preferences).outcome = .ok expansion)
    {σ : Type} (builder : CurveBuilder σ) (drawing : σ) :
    (definition.generate preferences builder drawing).outcome =
      match walkAlong (definition.fitted preferences expansion.word) builder drawing
        expansion.word with
      | .error error => .error (.structural error)
      | .ok (drawn, summary) => .ok (drawn,
          { expandedLength := expansion.word.length
            rejectedRules := expansion.rejected
            expansion := expansion.metrics
            stepLength := definition.fittedStep preferences expansion.word
            walk := summary }) := by
  unfold generate
  simp only [Run.outcome_bind, Run.outcome_enter, Run.outcome_stage, h, ok_bind]
  show (walkAlong (definition.fitted preferences expansion.word) builder drawing
    expansion.word).mapError _ >>= _ = _
  cases walkAlong (definition.fitted preferences expansion.word) builder drawing
    expansion.word <;> rfl

/-- Where the word cannot be expanded there is no drawing, for the same reason. -/
theorem generate_of_expand_error {error : GenerationError}
    (h : (definition.expand preferences).outcome = .error error)
    {σ : Type} (builder : CurveBuilder σ) (drawing : σ) :
    (definition.generate preferences builder drawing).outcome = .error error := by
  unfold generate
  simp only [Run.outcome_bind, Run.outcome_enter, h, ok_bind]
  rfl

end Lindenmayer.Definition
