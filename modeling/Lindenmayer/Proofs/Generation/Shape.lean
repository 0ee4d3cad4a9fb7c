import Lindenmayer.Proofs.Generation.Stages
import Lindenmayer.Proofs.Turtle.Shape

/-!
# What the turtle's numbers do not change

Two valid definitions with the same grammar differ in their turtles alone. Their words are
expanded alike, report for report and count for count (`outcome_expand_of_grammar_eq`), and their
drawings have one shape (`Definition.agree_curveEvents`).
-/

namespace Lindenmayer

/-- The measurements differ at most in the step and in where the turtle stands at the end. -/
def Measurements.SameCounts (measured measured' : Measurements) : Prop :=
  measured' =
    { measured with
      stepLength := measured'.stepLength
      walk := { measured.walk with finish := measured'.walk.finish } }

namespace Definition

variable {definition definition' : Definition}

/-- The turtle's numbers are checked and otherwise not looked at before the walk. -/
theorem outcome_expand_of_grammar_eq (hgrammar : definition.grammar = definition'.grammar)
    (hvalid : definition.validate = .ok ()) (hvalid' : definition'.validate = .ok ())
    (preferences : Preferences) :
    (definition.expand preferences).outcome = (definition'.expand preferences).outcome := by
  obtain ⟨grammar, turtle⟩ := definition
  obtain ⟨grammar', turtle'⟩ := definition'
  obtain rfl : grammar = grammar' := hgrammar
  rw [outcome_expand, outcome_expand, hvalid, hvalid']
  rfl

theorem agree_curveEvents (hgrammar : definition.grammar = definition'.grammar)
    (hvalid : definition.validate = .ok ()) (hvalid' : definition'.validate = .ok ())
    (preferences : Preferences) :
    Agree (fun drawn drawn' : Array CurveEvent × Measurements =>
        drawn.1.map CurveEvent.shape = drawn'.1.map CurveEvent.shape ∧
          drawn.2.SameCounts drawn'.2)
      (definition.curveEvents preferences).outcome
      (definition'.curveEvents preferences).outcome := by
  have hsame := outcome_expand_of_grammar_eq hgrammar hvalid hvalid' preferences
  unfold curveEvents
  cases hexpand : (definition.expand preferences).outcome with
  | error error =>
      rw [generate_of_expand_error hexpand, generate_of_expand_error (hsame ▸ hexpand)]
      exact .error error
  | ok expansion =>
      rw [generate_of_expand hexpand, generate_of_expand (hsame ▸ hexpand)]
      have hmove := (definition.move_fitted preferences expansion.word).trans
        (definition'.move_fitted preferences expansion.word).symm
      have hwalks := agree_walkAlong hmove expansion.word
      generalize walkAlong (definition.fitted preferences expansion.word) .recorder #[]
        expansion.word = walked at hwalks ⊢
      generalize walkAlong (definition'.fitted preferences expansion.word) .recorder #[]
        expansion.word = walked' at hwalks ⊢
      cases hwalks with
      | error error => exact .error _
      | ok related =>
          obtain ⟨hshapes, hcounts⟩ := related
          refine .ok ⟨hshapes, ?_⟩
          unfold Measurements.SameCounts
          dsimp only
          rw [← hcounts]

end Definition

/-- Nothing but the move symbol of a turtle has a say in the shape of its walk: whether there is a
drawing, with which kinds of events and which counts, or else which error. So where two definitions
have the same grammar and valid turtles, the same becomes of their rules and of their words, and
their drawings are of one shape. -/
theorem same_shape_of_any_geometry :
    (∀ (settings settings' : TurtleSettings) (word : Word), settings.move = settings'.move →
      Agree SameShape (walkAlong settings .recorder #[] word)
        (walkAlong settings' .recorder #[] word)) ∧
    ∀ (definition definition' : Definition) (preferences : Preferences),
      definition.grammar = definition'.grammar →
      definition.validate = .ok () → definition'.validate = .ok () →
      (definition.expand preferences).outcome = (definition'.expand preferences).outcome ∧
      Agree (fun drawn drawn' : Array CurveEvent × Measurements =>
          drawn.1.map CurveEvent.shape = drawn'.1.map CurveEvent.shape ∧
            drawn.2.SameCounts drawn'.2)
        (definition.curveEvents preferences).outcome
        (definition'.curveEvents preferences).outcome := by
  refine ⟨?_, ?_⟩
  · intro settings settings' word hmove
    exact agree_walkAlong hmove word
  · intro definition definition' preferences hgrammar hvalid hvalid'
    exact ⟨Definition.outcome_expand_of_grammar_eq hgrammar hvalid hvalid' preferences,
      Definition.agree_curveEvents hgrammar hvalid hvalid' preferences⟩

/-- A branching grammar for any turtle. -/
def Definition.swaying (turtle : TurtleSection) : Definition where
  grammar := { start := "F[]", rules := [⟨"F:=F[+F]", 1.0⟩, ⟨"F:=F]", 1.0⟩], iterations := 1 }
  turtle := turtle

/-- The word is `F[+F][]`: the turtles part at the `+`, and the last branch is discarded. Along `F]`
every turtle fails at the bracket. -/
theorem same_shape_of_swaying :
    ∃ drawn drawn', ((Definition.swaying {}).curveEvents {}).outcome = .ok drawn ∧
      ((Definition.swaying { angle := 0.25, jitterFraction := 0.5, jitterSeed := 7 }).curveEvents
        {}).outcome = .ok drawn' ∧
      drawn'.1.map CurveEvent.shape =
        #[.startPath, .extendPath, .branch, .extendPath, .endBranch false, .branch,
          .endBranch true] ∧
      drawn.2.SameCounts drawn'.2 ∧
      walkAlong { step := 0.5, angles := .uniform 0.25, heading := .unitX, jitterFraction := 0.5 }
        .recorder #[] [.symbol 'F', .pop] = .error (.unmatchedPop 1) := by
  let turtle : TurtleSection := { angle := 0.25, jitterFraction := 0.5, jitterSeed := 7 }
  have hvalid : (Definition.swaying {}).validate = .ok () := by
    have hsome : (Definition.swaying {}).validate.toOption = some () := by decide +kernel
    exact toOption_eq_some_iff.1 hsome
  have hvalid' : (Definition.swaying turtle).validate = .ok () := by
    have hsome : (Definition.swaying turtle).validate.toOption = some () := by decide +kernel
    exact toOption_eq_some_iff.1 hsome
  have hevents : ((Definition.swaying {}).curveEvents {}).outcome.toOption.map
      (fun drawn => drawn.1.map CurveEvent.shape) =
        some #[.startPath, .extendPath, .branch, .extendPath, .endBranch false, .branch,
          .endBranch true] := by decide +kernel
  have hgrammar : ∀ first second : TurtleSection,
      (Definition.swaying first).grammar = (Definition.swaying second).grammar := by
    intro first second
    rfl
  obtain ⟨hwalks, hdefinitions⟩ := same_shape_of_any_geometry
  obtain ⟨-, hagree⟩ := hdefinitions (Definition.swaying {}) (Definition.swaying turtle) {}
    (hgrammar _ _) hvalid hvalid'
  have hfails : walkAlong { step := 1.0, angles := .uniform 0.0 } .recorder #[]
      [.symbol 'F', .pop] = .error (.unmatchedPop 1) := rfl
  have hboth := hwalks { step := 1.0, angles := .uniform 0.0 }
    { step := 0.5, angles := .uniform 0.25, heading := .unitX, jitterFraction := 0.5 }
    [.symbol 'F', .pop] rfl
  rw [hfails] at hboth
  cases hdrawn : ((Definition.swaying {}).curveEvents {}).outcome with
  | error error =>
      rw [hdrawn] at hevents
      cases hevents
  | ok drawn =>
      rw [hdrawn] at hagree hevents
      obtain ⟨drawn', hdrawn', hshapes, hcounts⟩ := hagree.exists_of_ok
      refine ⟨drawn, drawn', rfl, hdrawn', ?_, hcounts, hboth.eq_of_error⟩
      rw [← hshapes]
      exact Option.some.inj hevents

end Lindenmayer
