import Lindenmayer.Proofs.Expander.Choosing
import Lindenmayer.Proofs.Expander.Resuming
import Lindenmayer.Proofs.Expander.Tracking

/-!
# Policies

The policy is asked only where a draw matches none of the rules of a symbol. From there on two runs
with different policies have different words and take their draws for different symbols; up to
there they are the same.

* What was counted stays counted (`unmatched_le_pass`, `unmatched_le_iterate`), so a run that ends
  with no unmatched draw in its account has had none at any time.
* Such a run is the run under any policy, be it to a word or to an error (`pass_of_matched`,
  `expand_of_matched`).
* The account has unmatched draws only in the way that the policy says (`tally_of_policy`).
-/

namespace Lindenmayer

namespace Tally

/-- Draws that matched no rule, whatever became of their symbols. -/
def unmatched (tally : Tally) : Nat := tally.dropped + tally.kept

theorem unmatched_add (a b : Tally) : (a.add b).unmatched = a.unmatched + b.unmatched := by
  simp only [unmatched, add]
  omega

end Tally

namespace Expander

variable {expander : Expander}

/-- Where a draw matches a rule, or none is taken, the policy is not asked. -/
theorem fate_of_matched {t : Token} {stream : RandomStream}
    (h : (expander.fate t stream).1.tally.unmatched = 0) (policy : NoMatchPolicy) :
    { expander with policy }.fate t stream = expander.fate t stream := by
  cases t with
  | symbol letter =>
      rw [fate_symbol_eq] at h ⊢
      rw [fate_symbol_eq]
      match hrules : expander.table.rulesOf letter with
      | [] => rfl
      | [rule] => rfl
      | first :: second :: rest =>
          simp only [hrules] at h ⊢
          cases hchoice : firstReaching Rule.probability stream.unit.1 0.0
              (first :: second :: rest) with
          | some rule => rfl
          | none =>
              rw [hchoice] at h
              cases hpolicy : expander.policy <;> rw [hpolicy] at h <;> cases h
  | assign | direction | push | pop | finish => rfl

/-! ## Passes -/

theorem unmatched_le_pass (word done : Word) (length : Nat) (stream : RandomStream)
    (tally : Tally) :
    tally.unmatched ≤ (expander.pass word done length stream tally).2.2.unmatched := by
  induction word generalizing done length stream tally with
  | nil => exact Nat.le_refl _
  | cons t rest ih =>
      have hcount : tally.unmatched ≤ (tally.add (expander.fate t stream).1.tally).unmatched := by
        rw [Tally.unmatched_add]
        exact Nat.le_add_right _ _
      unfold pass
      dsimp only
      split
      · exact Nat.le_trans hcount (ih _ _ _ _)
      · exact hcount

/-- A pass without an unmatched draw is the same under any policy. The induction is on the word; the
account of the whole pass says of its first token that the policy is not asked. -/
theorem pass_of_matched {word done : Word} {length : Nat} {stream : RandomStream} {tally : Tally}
    (h : (expander.pass word done length stream tally).2.2.unmatched = 0)
    (policy : NoMatchPolicy) :
    { expander with policy }.pass word done length stream tally =
      expander.pass word done length stream tally := by
  induction word generalizing done length stream tally with
  | nil => rfl
  | cons t rest ih =>
      unfold pass at h
      dsimp only at h
      have hcount : (tally.add (expander.fate t stream).1.tally).unmatched = 0 := by
        split at h
        · exact Nat.le_zero.1 (h ▸ unmatched_le_pass ..)
        · exact h
      have hfirst : (expander.fate t stream).1.tally.unmatched = 0 := by
        rw [Tally.unmatched_add] at hcount
        omega
      unfold pass
      dsimp only
      rw [fate_of_matched hfirst]
      split
      · next hfits =>
        rw [if_pos hfits] at h
        exact ih h
      · rfl

theorem step_of_matched {word : Word} {progress : Progress}
    (h : (expander.step word progress).2.metrics.tally.unmatched = 0) (policy : NoMatchPolicy) :
    { expander with policy }.step word progress = expander.step word progress := by
  have hpass : (expander.pass word [] 0 progress.stream {}).2.2.unmatched = 0 := by
    have hsum := Tally.unmatched_add progress.metrics.tally
      (expander.pass word [] 0 progress.stream {}).2.2
    have htotal : (progress.metrics.tally.add
      (expander.pass word [] 0 progress.stream {}).2.2).unmatched = 0 := h
    omega
  unfold step
  rw [pass_of_matched hpass]

theorem unmatched_le_step (word : Word) (progress : Progress) :
    progress.metrics.tally.unmatched ≤
      (expander.step word progress).2.metrics.tally.unmatched := by
  show _ ≤ (progress.metrics.tally.add (expander.pass word [] 0 progress.stream {}).2.2).unmatched
  rw [Tally.unmatched_add]
  exact Nat.le_add_right _ _

theorem unmatched_le_iterate (n : Nat) (word : Word) (progress : Progress) :
    progress.metrics.tally.unmatched ≤
      (expander.iterate n word progress).2.metrics.tally.unmatched := by
  induction n generalizing word progress with
  | zero => exact Nat.le_refl _
  | succ n ih =>
      have hstep := expander.unmatched_le_step word progress
      unfold iterate
      rcases hresult : expander.step word progress with ⟨error | built, after⟩
      · rw [hresult] at hstep
        exact hstep
      · rw [hresult] at hstep
        exact Nat.le_trans hstep (ih built
          { after with metrics := after.metrics.measure built.length })

theorem iterate_of_matched {n : Nat} {word : Word} {progress : Progress}
    (h : (expander.iterate n word progress).2.metrics.tally.unmatched = 0)
    (policy : NoMatchPolicy) :
    { expander with policy }.iterate n word progress = expander.iterate n word progress := by
  induction n generalizing word progress with
  | zero => rfl
  | succ n ih =>
      rcases hresult : expander.step word progress with ⟨error | built, after⟩
      · have hstep : (expander.step word progress).2.metrics.tally.unmatched = 0 := by
          simpa only [iterate, hresult] using h
        simp only [iterate, step_of_matched hstep, hresult]
      · have hrest : (expander.iterate n built
            { after with metrics := after.metrics.measure built.length }).2.metrics.tally.unmatched
              = 0 := by
          simpa only [iterate, hresult] using h
        have hstep : (expander.step word progress).2.metrics.tally.unmatched = 0 := by
          have hle := expander.unmatched_le_iterate n built
            { after with metrics := after.metrics.measure built.length }
          rw [hrest] at hle
          rw [hresult]
          exact Nat.le_zero.1 hle
        simp only [iterate, step_of_matched hstep, hresult]
        exact ih hrest

/-- An expansion without an unmatched draw comes to the same under any policy, be it a word or an
error. -/
theorem expand_of_matched {n : Nat} {start : Word} {progress : Progress}
    (h : (expander.expand n start progress).2.metrics.tally.unmatched = 0)
    (policy : NoMatchPolicy) :
    { expander with policy }.expand n start progress = expander.expand n start progress := by
  unfold expand at h ⊢
  dsimp only at h ⊢
  split
  · rfl
  split
  · rfl
  · next hmany hlong =>
    rw [if_neg hmany, if_neg hlong] at h
    exact iterate_of_matched h policy

/-! ## One policy or the other -/

theorem tally_fate_of_policy (expander : Expander) (t : Token) (stream : RandomStream) :
    (expander.policy = .drop → (expander.fate t stream).1.tally.kept = 0) ∧
      (expander.policy = .keep → (expander.fate t stream).1.tally.dropped = 0) := by
  cases t with
  | symbol letter =>
      rw [fate_symbol_eq]
      match expander.table.rulesOf letter with
      | [] => exact ⟨fun _ => rfl, fun _ => rfl⟩
      | [rule] => exact ⟨fun _ => rfl, fun _ => rfl⟩
      | first :: second :: rest =>
          dsimp only
          cases firstReaching Rule.probability stream.unit.1 0.0 (first :: second :: rest) with
          | some rule => exact ⟨fun _ => rfl, fun _ => rfl⟩
          | none =>
              constructor
              · intro hdrop
                rw [hdrop]
                rfl
              · intro hkeep
                rw [hkeep]
                rfl
  | assign | direction | push | pop | finish => exact ⟨fun _ => rfl, fun _ => rfl⟩

/-- Symbols are kept only by the policy to keep them, and dropped only by that to drop them. -/
theorem tally_of_policy (expander : Expander) (n : Nat) (start : Word) (progress : Progress) :
    (expander.policy = .drop → (expander.expand n start progress).2.metrics.tally.kept = 0) ∧
      (expander.policy = .keep →
        (expander.expand n start progress).2.metrics.tally.dropped = 0) := by
  -- the expander keeps step with itself, and each token counts as the policy says
  have htracks : Tracks Eq (fun tally _ =>
      (expander.policy = .drop → tally.kept = 0) ∧ (expander.policy = .keep → tally.dropped = 0))
      expander expander :=
    { limits := rfl
      output := by
        rintro t s - rfl
        rfl
      stream := by
        rintro t s - rfl
        rfl
      tally := by
        rintro t s - rfl
        exact tally_fate_of_policy expander t s
      empty := ⟨fun _ => rfl, fun _ => rfl⟩
      add := by
        rintro a - b - ⟨hkept, hdropped⟩ ⟨hkept', hdropped'⟩
        exact ⟨fun h => by simp [Tally.add, hkept h, hkept' h],
          fun h => by simp [Tally.add, hdropped h, hdropped' h]⟩ }
  exact (htracks.expand n start progress progress rfl).2.tally

/-- The policies differ only where a draw matches no rule. An expansion that is to drop symbols
succeeds without dropping any if and only if the one that is to keep them succeeds without keeping
any, and then the two are the same: the word, the lengths, the draws and the other counts, and what
is left of the random stream. They are the same as well if they fail before such a draw. -/
theorem expand_policies (table : ProductionTable) (limits : ExpansionLimits) (n : Nat)
    (start : Word) (progress : Progress) :
    let dropping := expand ⟨table, .drop, limits⟩ n start progress
    let keeping := expand ⟨table, .keep, limits⟩ n start progress
    ((∃ built, dropping.1 = .ok built) ∧ dropping.2.metrics.tally.dropped = 0 ↔
      (∃ built, keeping.1 = .ok built) ∧ keeping.2.metrics.tally.kept = 0) ∧
    (dropping.2.metrics.tally.dropped = 0 → keeping = dropping) ∧
    (keeping.2.metrics.tally.kept = 0 → keeping = dropping) := by
  intro dropping keeping
  have hkept : dropping.2.metrics.tally.kept = 0 :=
    (tally_of_policy ⟨table, .drop, limits⟩ n start progress).1 rfl
  have hdropped : keeping.2.metrics.tally.dropped = 0 :=
    (tally_of_policy ⟨table, .keep, limits⟩ n start progress).2 rfl
  have hfirst : dropping.2.metrics.tally.dropped = 0 → keeping = dropping := by
    intro hnone
    have hmatched : dropping.2.metrics.tally.unmatched = 0 := by
      rw [Tally.unmatched, hnone, hkept]
    exact expand_of_matched hmatched .keep
  have hsecond : keeping.2.metrics.tally.kept = 0 → keeping = dropping := by
    intro hnone
    have hmatched : keeping.2.metrics.tally.unmatched = 0 := by
      rw [Tally.unmatched, hnone, hdropped]
    exact (expand_of_matched hmatched .drop).symm
  refine ⟨⟨?_, ?_⟩, hfirst, hsecond⟩
  · rintro ⟨hbuilt, hnone⟩
    rw [hfirst hnone]
    exact ⟨hbuilt, hkept⟩
  · rintro ⟨hbuilt, hnone⟩
    rw [← hsecond hnone]
    exact ⟨hbuilt, hdropped⟩

/-- Six draws, all of which match a rule: the symbols need neither be dropped nor kept. -/
theorem expand_policies_branching :
    ∃ built,
      (expand ⟨branching.table, .drop, {}⟩ 2 [.symbol 'F', .symbol 'F']
        { stream := .ofSeed 2 }).1 = .ok built ∧
      (expand ⟨branching.table, .drop, {}⟩ 2 [.symbol 'F', .symbol 'F']
        { stream := .ofSeed 2 }).2.metrics.tally = { draws := 6 } ∧
      (expand ⟨branching.table, .keep, {}⟩ 2 [.symbol 'F', .symbol 'F']
        { stream := .ofSeed 2 }).1 = .ok built ∧
      (expand ⟨branching.table, .keep, {}⟩ 2 [.symbol 'F', .symbol 'F']
        { stream := .ofSeed 2 }).2.metrics.tally = { draws := 6 } := by
  obtain ⟨-, hsame, -⟩ := expand_policies branching.table {} 2 [.symbol 'F', .symbol 'F']
    { stream := .ofSeed 2 }
  have htally : (expand ⟨branching.table, .drop, {}⟩ 2 [.symbol 'F', .symbol 'F']
      { stream := .ofSeed 2 }).2.metrics.tally = { draws := 6 } := by decide +kernel
  have hsome : (expand ⟨branching.table, .drop, {}⟩ 2 [.symbol 'F', .symbol 'F']
      { stream := .ofSeed 2 }).1.toOption.isSome = true := by decide +kernel
  have hkeeping := hsame (congrArg Tally.dropped htally)
  rcases hbuilt : (expand ⟨branching.table, .drop, {}⟩ 2 [.symbol 'F', .symbol 'F']
    { stream := .ofSeed 2 }).1 with error | built
  · rw [hbuilt] at hsome
    cases hsome
  · exact ⟨built, rfl, htally, (congrArg Prod.fst hkeeping).trans hbuilt,
      (congrArg (·.2.metrics.tally) hkeeping).trans htally⟩

end Expander

end Lindenmayer
