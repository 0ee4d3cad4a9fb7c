import Lindenmayer.Proofs.Expander.Limits

/-!
# Resuming an expansion

An expansion may be made in two stretches, the second of which goes on with the word and the
random stream that the first one left (`expand_add`).

* Passes in a row are passes after passes (`iterate_add`).
* What was entered into the account earlier stays in front and has no other influence
  (`iterate_following`); so the account that the second stretch begins anew can be put behind
  that of the first.
-/

namespace Lindenmayer

namespace Metrics

/-- The account of two stretches of work, one after the other. -/
def append (before behind : Metrics) : Metrics :=
  ⟨before.lengths ++ behind.lengths, before.tally.add behind.tally⟩

@[simp] theorem append_empty (metrics : Metrics) : metrics.append {} = metrics := by
  simp [append, Tally.add]

theorem append_count (before behind : Metrics) (tally : Tally) :
    (before.append behind).count tally = before.append (behind.count tally) := by
  simp [append, count, Tally.add_assoc]

theorem append_measure (before behind : Metrics) (length : Nat) :
    (before.append behind).measure length = before.append (behind.measure length) := by
  simp [append, measure]

end Metrics

/-- The same progress after earlier work. -/
def Progress.following (earlier : Metrics) (progress : Progress) : Progress :=
  { progress with metrics := earlier.append progress.metrics }

namespace Expander

variable {expander : Expander}

theorem step_following (word : Word) (earlier : Metrics) (progress : Progress) :
    expander.step word (progress.following earlier) =
      ((expander.step word progress).1, (expander.step word progress).2.following earlier) := by
  unfold step Progress.following
  dsimp only
  rw [Metrics.append_count]

/-- Passes do not look at the account. -/
theorem iterate_following (n : Nat) (word : Word) (earlier : Metrics) (progress : Progress) :
    expander.iterate n word (progress.following earlier) =
      ((expander.iterate n word progress).1,
        (expander.iterate n word progress).2.following earlier) := by
  induction n generalizing word progress with
  | zero => rfl
  | succ n ih =>
      unfold iterate
      rw [step_following]
      rcases expander.step word progress with ⟨error | built, after⟩
      · rfl
      · dsimp only
        rw [← ih]
        unfold Progress.following
        dsimp only
        rw [Metrics.append_measure]

theorem iterate_add (n m : Nat) (word : Word) (progress : Progress) :
    expander.iterate (n + m) word progress =
      match expander.iterate n word progress with
      | (.error error, between) => (.error error, between)
      | (.ok middle, between) => expander.iterate m middle between := by
  induction n generalizing word progress with
  | zero => rw [Nat.zero_add, iterate]
  | succ n ih =>
      rw [Nat.succ_add, iterate, iterate]
      rcases expander.step word progress with ⟨error | built, after⟩
      · rfl
      · exact ih ..

theorem length_of_iterate {n : Nat} {word built : Word} {progress after : Progress}
    (hword : word.length ≤ expander.limits.wordLength)
    (h : expander.iterate n word progress = (.ok built, after)) :
    built.length ≤ expander.limits.wordLength := by
  induction n generalizing word progress with
  | zero =>
      cases h
      exact hword
  | succ n ih =>
      unfold iterate at h
      split at h
      · cases h
      · next hstep => exact ih (length_of_step hstep) h

/-- Passes from any progress are those from its random stream, behind its account. -/
theorem iterate_eq_following (n : Nat) (word : Word) (progress : Progress) :
    expander.iterate n word progress =
      ((expander.iterate n word { stream := progress.stream }).1,
        (expander.iterate n word { stream := progress.stream }).2.following
          progress.metrics) := by
  rw [← iterate_following]
  unfold Progress.following
  dsimp only
  rw [Metrics.append_empty]

/-- An expansion may be stopped after some of its passes and resumed: the result is that of all
passes made at once, be it a word or an error. The random stream is left at the same place, the
lengths of the two stretches follow each other without the one they share, and the counts add
up. -/
theorem expand_add {n m : Nat} (h : n + m ≤ expander.limits.iterations) (start : Word)
    (progress : Progress) :
    (∀ error between, expander.expand n start progress = (.error error, between) →
      (expander.expand (n + m) start { stream := progress.stream }).1 = .error error) ∧
    ∀ middle between, expander.expand n start progress = (.ok middle, between) →
      (∀ error after, expander.expand m middle between = (.error error, after) →
        (expander.expand (n + m) start { stream := progress.stream }).1 = .error error) ∧
      ∀ built after, expander.expand m middle between = (.ok built, after) →
        expander.expand (n + m) start { stream := progress.stream } =
          (.ok built,
            { stream := after.stream
              metrics :=
                { lengths := between.metrics.lengths ++ after.metrics.lengths.tail
                  tally := between.metrics.tally.add after.metrics.tally } }) := by
  have hn : n ≤ expander.limits.iterations := Nat.le_trans (Nat.le_add_right n m) h
  have hm : m ≤ expander.limits.iterations := Nat.le_trans (Nat.le_add_left m n) h
  rcases Nat.lt_or_ge expander.limits.wordLength start.length with hlong | hstart
  · -- the start is refused whatever the number of passes
    have hrefused : (expander.expand n start progress).1 =
        .error ⟨.wordLength, start.length, expander.limits.wordLength⟩ :=
      expand_of_long hn hlong
    refine ⟨?_, ?_⟩
    · intro error between hfirst
      rw [hfirst] at hrefused
      cases hrefused
      exact expand_of_long h hlong
    · intro middle between hfirst
      rw [hfirst] at hrefused
      cases hrefused
  · rw [expand_of_le h hstart, iterate_add, expand_of_le hn hstart]
    dsimp only
    refine ⟨?_, ?_⟩
    · intro error between hfirst
      rw [hfirst]
    · intro middle between hfirst
      have hmiddle := length_of_iterate hstart hfirst
      rw [hfirst]
      dsimp only
      rw [iterate_eq_following m middle between, expand_of_le hm hmiddle,
        iterate_eq_following m middle]
      rcases expander.iterate m middle { stream := between.stream } with ⟨error | built, last⟩
      · refine ⟨?_, ?_⟩
        · intro error after hsecond
          cases hsecond
          rfl
        · intro built after hsecond
          cases hsecond
      · refine ⟨?_, ?_⟩
        · intro error after hsecond
          cases hsecond
        · intro built after hsecond
          cases hsecond
          simp [Progress.following, Metrics.append]

/-- A symbol with two alternatives, which leave a quarter of the draws unmatched. -/
def branching : Expander where
  table := (RuleSet.mk .strict #[⟨"F:=F[F]", 0.5⟩, ⟨"F:=FF", 0.25⟩]).compile.table

/-- Two passes and one more; in both stretches a draw matches no rule. -/
theorem expand_add_branching :
    ∃ middle between built after,
      branching.expand 2 [.symbol 'F', .symbol 'F'] { stream := .ofSeed 1 } =
        (.ok middle, between) ∧
      branching.expand 1 middle between = (.ok built, after) ∧
      between.metrics.tally.dropped = 1 ∧ after.metrics.tally.dropped = 1 ∧
      branching.expand 3 [.symbol 'F', .symbol 'F'] { stream := .ofSeed 1 } =
        (.ok built,
          { stream := after.stream
            metrics :=
              { lengths := between.metrics.lengths ++ after.metrics.lengths.tail
                tally := between.metrics.tally.add after.metrics.tally } }) := by
  have hdropped :
      (match branching.expand 2 [.symbol 'F', .symbol 'F'] { stream := .ofSeed 1 } with
        | (.ok middle, between) =>
            match branching.expand 1 middle between with
            | (.ok _, after) =>
                some (between.metrics.tally.dropped, after.metrics.tally.dropped)
            | (.error _, _) => none
        | (.error _, _) => none) = some (1, 1) := by decide +kernel
  rcases hfirst : branching.expand 2 [.symbol 'F', .symbol 'F'] { stream := .ofSeed 1 } with
    ⟨error | middle, between⟩
  · rw [hfirst] at hdropped
    cases hdropped
  rcases hsecond : branching.expand 1 middle between with ⟨error | built, after⟩
  · rw [hfirst] at hdropped
    simp only [hsecond] at hdropped
    cases hdropped
  · rw [hfirst] at hdropped
    simp only [hsecond, Option.some.injEq, Prod.mk.injEq] at hdropped
    have hlimit : 2 + 1 ≤ branching.limits.iterations := by decide
    have hwhole := (expand_add hlimit _ _).2 middle between hfirst
    exact ⟨middle, between, built, after, rfl, hsecond, hdropped.1, hdropped.2,
      hwhole.2 built after hsecond⟩

end Expander

end Lindenmayer
