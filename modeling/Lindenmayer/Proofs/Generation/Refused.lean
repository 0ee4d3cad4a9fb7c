import Lindenmayer.Proofs.Generation.Stages
import Lindenmayer.Proofs.Rule.Faults

/-!
# Refused rules

Rules that are refused leave no trace in a run. Without them the same table is compiled, and the
table is all that an expansion has from the rules (`agree_expand_of_table_eq`). A run that ends
before the rules are applied has ended for the turtle's numbers or for the start text, whatever the
rules are (`expand_eq_config_iff`, `expand_eq_start_iff`).
-/

namespace Lindenmayer.Definition

/-- The definition with other rules. -/
def withRules (definition : Definition) (rules : List RuleEntry) : Definition :=
  { definition with grammar := { definition.grammar with rules } }

/-- The definition without the rules that are refused. -/
def withoutRefused (definition : Definition) (preferences : Preferences) : Definition :=
  definition.withRules
    (RuleSet.accepted definition.grammar.rules (definition.compile preferences).reports)

variable {definition : Definition} {preferences : Preferences}

theorem compile_withoutRefused (definition : Definition) (preferences : Preferences) :
    ((definition.withoutRefused preferences).compile preferences).table =
        (definition.compile preferences).table ∧
      ((definition.withoutRefused preferences).compile preferences).allValid = true :=
  RuleSet.compileFrom_accepted definition.grammar.rules .empty 0 0

/-- The table is all that an expansion has from the rules. -/
theorem agree_expand_of_table_eq {rules : List RuleEntry}
    (h : ((definition.withRules rules).compile preferences).table =
      (definition.compile preferences).table) :
    Agree (fun expansion expansion' : Expansion =>
        expansion'.word = expansion.word ∧ expansion'.metrics = expansion.metrics)
      (definition.expand preferences).outcome
      ((definition.withRules rules).expand preferences).outcome := by
  have hexpander : (definition.withRules rules).expander preferences =
      definition.expander preferences := by
    unfold expander
    rw [h]
  rw [outcome_expand, outcome_expand, hexpander]
  apply Agree.bind (.refl _)
  intro _ _ _
  apply Agree.bind (.refl _)
  rintro start _ rfl
  apply Agree.bind (.refl _)
  rintro word _ rfl
  exact .ok ⟨rfl, rfl⟩

theorem expand_eq_config_iff {error : ConfigError} :
    (definition.expand preferences).outcome = .error (.config error) ↔
      definition.turtle.validate = .error error := by
  simp only [outcome_expand, validate, bind_eq_error_iff, mapError_eq_error_iff,
    mapError_eq_ok_iff]
  constructor
  · -- Every stage behind the first one has a name of its own for its errors.
    rintro (⟨reason, hvalidate, ⟨⟩⟩ | ⟨_, -, ⟨_, -, ⟨⟩⟩ | ⟨_, -, ⟨_, -, ⟨⟩⟩ | ⟨_, -, ⟨⟩⟩⟩⟩)
    exact hvalidate
  · intro hvalidate
    exact .inl ⟨error, hvalidate, rfl⟩

theorem expand_eq_start_iff {error : GrammarError} :
    (definition.expand preferences).outcome = .error (.start error) ↔
      definition.turtle.validate = .ok () ∧ Word.parse definition.grammar.start = .error error := by
  simp only [outcome_expand, validate, bind_eq_error_iff, mapError_eq_error_iff,
    mapError_eq_ok_iff]
  constructor
  · rintro (⟨_, -, ⟨⟩⟩ |
      ⟨⟨⟩, hvalidate, ⟨reason, hstart, ⟨⟩⟩ | ⟨_, -, ⟨_, -, ⟨⟩⟩ | ⟨_, -, ⟨⟩⟩⟩⟩)
    exact ⟨hvalidate, hstart⟩
  · rintro ⟨hvalidate, hstart⟩
    exact .inr ⟨(), hvalidate, .inl ⟨error, hstart, rfl⟩⟩

/-- Refused rules are inert. Without them every rule is valid, the table is the same, and words are
expanded to the same end. And whatever the rules are, a run is not refused on their account: the
errors of the configuration and of the start text are those of the turtle's numbers and of the
start text. -/
theorem refused_rules_inert (definition : Definition) (preferences : Preferences) :
    let kept := definition.withoutRefused preferences
    (kept.compile preferences).allValid = true ∧
    (kept.compile preferences).table = (definition.compile preferences).table ∧
    Agree (fun expansion expansion' : Expansion =>
        expansion'.word = expansion.word ∧ expansion'.metrics = expansion.metrics)
      (definition.expand preferences).outcome (kept.expand preferences).outcome ∧
    ∀ rules : List RuleEntry,
      (∀ error, ((definition.withRules rules).expand preferences).outcome =
          .error (.config error) ↔ definition.turtle.validate = .error error) ∧
      ∀ error, ((definition.withRules rules).expand preferences).outcome =
          .error (.start error) ↔
        definition.turtle.validate = .ok () ∧
          Word.parse definition.grammar.start = .error error := by
  intro kept
  obtain ⟨htable, hvalid⟩ := definition.compile_withoutRefused preferences
  refine ⟨hvalid, htable, agree_expand_of_table_eq htable, ?_⟩
  intro rules
  exact ⟨fun _ => expand_eq_config_iff, fun _ => expand_eq_start_iff⟩

end Lindenmayer.Definition
