import Lindenmayer.Proofs.Expander.Brackets
import Lindenmayer.Proofs.Generation.Stages
import Lindenmayer.Proofs.Turtle.Brackets
import Lindenmayer.Proofs.Word.Reading

/-!
# The start word decides

The brackets of the start word that have no partner decide how a generation ends, whatever
the rules, the draws, the turtle and the builder are (`generate_outcome`). Expanding leaves
them as they are, and the limits on texts, rules and passes keep the peak of every expanded
word far below the limit on frames (`peak_of_definition_expand`).
-/

namespace Lindenmayer

/-- A start word, its rules and its passes open fewer brackets at once than frames fit. -/
theorem Limits.peak_le_branchStack :
    ruleLength + iterations * branchDepth ≤ branchStack := by decide

namespace Definition

variable {definition : Definition} {preferences : Preferences} {expansion : Expansion}

/-- The rules of a definition are nested. -/
theorem nested_expander (definition : Definition) (preferences : Preferences) :
    (definition.expander preferences).Nested :=
  Expander.nested_of_compile (definition.ruleSet preferences) _ _

/-- The brackets of the start word without a partner are those of the expanded word, which
never opens more at once than frames fit. -/
theorem brackets_of_expand (h : (definition.expand preferences).outcome = .ok expansion) :
    ∃ start, Word.parse definition.grammar.start = .ok start ∧
      expansion.word.unmatched = start.unmatched ∧
      expansion.word.peak ≤ Limits.branchStack := by
  obtain ⟨-, start, progress, hstart, hword, -⟩ := expand_eq_ok h
  have hnested := nested_expander definition preferences
  refine ⟨start, hstart, Expander.unmatched_of_expand hnested hword, ?_⟩
  have hlength : start.length ≤ Limits.ruleLength := Word.length_of_parse hstart
  calc expansion.word.peak
      ≤ start.peak + Limits.iterations * Limits.branchDepth :=
        Expander.peak_of_expand hnested hword
    _ ≤ Limits.ruleLength + Limits.iterations * Limits.branchDepth := by
        have hpeak : start.peak ≤ 0 + start.length := Unmatched.peak_le {} start
        omega
    _ ≤ Limits.branchStack := Limits.peak_le_branchStack

/-- Once a definition is expanded, its start word decides: a closing bracket without a partner
is an error, and so is an opening one; without either there is a drawing. Branches are never
too many. -/
theorem generate_outcome (h : (definition.expand preferences).outcome = .ok expansion)
    {σ : Type} (builder : CurveBuilder σ) (drawing : σ) :
    ∃ start, Word.parse definition.grammar.start = .ok start ∧
      (0 < start.unmatched.closing → ∃ index,
        (definition.generate preferences builder drawing).outcome =
          .error (.structural (.unmatchedPop index))) ∧
      (start.unmatched.closing = 0 → 0 < start.unmatched.opening →
        (definition.generate preferences builder drawing).outcome =
          .error (.structural (.unclosedBranches start.unmatched.opening))) ∧
      (start.unmatched.closing = 0 → start.unmatched.opening = 0 → ∃ drawn,
        (definition.generate preferences builder drawing).outcome = .ok drawn) ∧
      ∀ index depth limit, (definition.generate preferences builder drawing).outcome ≠
        .error (.structural (.stackOverflow index depth limit)) := by
  obtain ⟨start, hstart, hunmatched, hpeak⟩ := brackets_of_expand h
  have hexplains := expansion.word.explains_walkAlong
    (definition.fitted preferences expansion.word) builder drawing
  -- the walk decides, and what it comes to is explained by the brackets of the expanded word
  rw [generate_of_expand h]
  refine ⟨start, hstart, ?_⟩
  rw [← hunmatched]
  cases hwalk : walkAlong (definition.fitted preferences expansion.word) builder drawing
    expansion.word with
  | ok drawn =>
      rw [hwalk] at hexplains
      have hnone : expansion.word.unmatched = {} := hexplains.1
      simp [hnone]
  | error error =>
      rw [hwalk] at hexplains
      cases error with
      | unmatchedPop index =>
          have hclosing : 0 < expansion.word.unmatched.closing := hexplains
          simp [Nat.ne_of_gt hclosing]
      | unclosedBranches opened =>
          obtain ⟨hopen, hpos⟩ : expansion.word.unmatched = ⟨0, opened⟩ ∧ 0 < opened :=
            hexplains
          simp [hopen, Nat.ne_of_gt hpos]
      | stackOverflow index depth limit =>
          exact absurd hexplains (Nat.not_lt_of_le hpeak)

/-- Two brackets without a partner in the start word, one rule that nests, one that is refused
and one that is drawn at random. -/
def crossed : Definition where
  grammar :=
    { start := "]F["
      rules := [⟨"F:=[F]F", 0.5⟩, ⟨"F:=[", 0.5⟩, ⟨"F:=F[+[]]", 0.25⟩]
      iterations := 2
      seed := 3 }

theorem generate_outcome_crossed :
    ∃ expansion, (crossed.expand {}).outcome = .ok expansion ∧ expansion.word.length = 12 ∧
      ∃ index, (crossed.generate {} CurveBuilder.recorder #[]).outcome =
        .error (.structural (.unmatchedPop index)) := by
  have hlength : (crossed.expand {}).outcome.toOption.map (fun expansion =>
      expansion.word.length) = some 12 := by decide +kernel
  have hparse : (Word.parse crossed.grammar.start).toOption =
      some [.pop, .symbol 'F', .push] := by decide +kernel
  cases hexpand : (crossed.expand {}).outcome with
  | error error =>
      rw [hexpand] at hlength
      cases hlength
  | ok expansion =>
      rw [hexpand] at hlength
      obtain ⟨start, hstart, hclosing, -⟩ :=
        generate_outcome hexpand CurveBuilder.recorder #[]
      rw [hstart] at hparse
      cases hparse
      exact ⟨expansion, rfl, Option.some.inj hlength, hclosing Nat.one_pos⟩

end Definition

end Lindenmayer
