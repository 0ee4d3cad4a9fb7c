import Lindenmayer.Definition
import Lindenmayer.Journal.Run
import Lindenmayer.Journal.Stages
import Lindenmayer.Preferences

/-!
# Generation

From a definition to a drawing: the rules are compiled, the start word is expanded, the
step is fitted to the stem, and a turtle walks along the expanded word. Rules that are
refused are left out; whatever else goes wrong ends the run.
-/

namespace Lindenmayer

/-- What ends a run. -/
inductive GenerationError where
  | config (error : ConfigError)
  | start (error : GrammarError)
  | expansion (error : LimitError)
  | structural (error : StructuralError)

namespace GenerationError

/-- The code of the error. -/
def code : GenerationError → Code
  | config error => error.code
  | start error => error.code
  | expansion error => error.code
  | structural error => error.code

/-- The error in words. -/
def message : GenerationError → String
  | config error => "Configuration failed: " ++ error.message
  | start error => "Start sequence rejected: " ++ error.message
  | expansion error => "Expansion failed: " ++ error.message
  | structural error => "Interpretation failed: " ++ error.message

end GenerationError

/-- An expanded word, with what became of the rules and of the symbols. -/
structure Expansion where
  word : Word
  reports : List RuleReport
  metrics : Metrics

/-- Number of rules that were refused. -/
def Expansion.rejected (expansion : Expansion) : Nat :=
  (expansion.reports.filter fun report => !report.isValid).length

/-- What a whole run measured. -/
structure Measurements where
  expandedLength : Nat
  rejectedRules : Nat
  expansion : Metrics
  stepLength : Float
  walk : WalkSummary

namespace Definition

/-- The rules of the definition. -/
def ruleSet (definition : Definition) (preferences : Preferences) : RuleSet :=
  definition.grammar.ruleSet preferences.alphabet

/-- Compile the rules of the definition. -/
def compile (definition : Definition) (preferences : Preferences) : CompiledRules :=
  (definition.ruleSet preferences).compile

/-- The turtle of the definition, with a step that has been fitted. -/
def turtleSettings (definition : Definition) (preferences : Preferences) (step : Float) :
    TurtleSettings where
  step := step
  angles := definition.turtle.angles
  jitterFraction := definition.turtle.jitterFraction
  jitterSeed := definition.turtle.jitterSeed
  move := preferences.move
  heading := preferences.heading

/-- Compile the rules and expand the start word. -/
def expand (definition : Definition) (preferences : Preferences) :
    Run GenerationError Expansion := do
  Run.of (definition.validate.mapError .config)
  let grammar := definition.grammar
  let start ← Run.stage ((Word.parse grammar.start).mapError .start)
    (Journal.reading preferences.defaultPositions grammar.start
      (({} : Analyzer).tokenizeSequence grammar.start))
  let compiled := definition.compile preferences
  Run.enter (Journal.compiling (definition.ruleSet preferences) compiled)
  let expander : Expander := { table := compiled.table, policy := preferences.noMatch }
  let (result, progress) :=
    expander.expand grammar.iterations.toNat start { stream := .ofSeed grammar.seed }
  let word ← Run.stage (result.mapError .expansion)
    (Journal.expanding preferences.notePasses result progress.metrics)
  return { word, reports := compiled.reports, metrics := progress.metrics }

/-- What is entered before anything else. -/
def startEvent (definition : Definition) : Event :=
  (Event.info "Starting generation pipeline").entered
    [("start", definition.grammar.start),
      ("rules", toString definition.grammar.rules.length),
      ("iterations", toString definition.grammar.iterations.toNat)]

/-- What is entered at the end. -/
def doneEvent (measured : Measurements) : Event :=
  (Event.success .generationComplete "Generation pipeline succeeded").entered
    [("expanded_length", toString measured.expandedLength),
      ("rejected_rules", toString measured.rejectedRules),
      ("step_length", Decimal.text measured.stepLength),
      ("forward_moves", toString measured.walk.forwardMoves)]

/-- Make the drawing of the definition with a builder. -/
def generate {σ : Type} (definition : Definition) (preferences : Preferences)
    (builder : CurveBuilder σ) (drawing : σ) : Run GenerationError (σ × Measurements) := do
  Run.enter [definition.startEvent]
  let expansion ← definition.expand preferences
  let moves := Turtle.stemMoves preferences.move expansion.word
  let base := definition.turtle.baseLength
  let step := Turtle.stepLength moves base
  Run.enter (Journal.fitting moves base step)
  let settings := definition.turtleSettings preferences step
  -- with a fraction in range no walk is broken off
  let walked := walkAlong settings builder drawing expansion.word
  let (drawing, summary) ← Run.stage (walked.mapError .structural) (Journal.walking walked)
  let measured : Measurements :=
    { expandedLength := expansion.word.length
      rejectedRules := expansion.rejected
      expansion := expansion.metrics
      stepLength := step
      walk := summary }
  Run.enter [doneEvent measured]
  return (drawing, measured)

/-- The skeleton of the definition. -/
def skeleton (definition : Definition) (preferences : Preferences) :
    Run GenerationError (Skeleton × Measurements) := do
  let (state, measured) ← definition.generate preferences SkeletonState.builder {}
  return (state.skeleton definition.turtle.bevel, measured)

/-- The curve events of the definition. -/
def curveEvents (definition : Definition) (preferences : Preferences) :
    Run GenerationError (Array CurveEvent × Measurements) :=
  definition.generate preferences CurveBuilder.recorder #[]

end Definition

end Lindenmayer
