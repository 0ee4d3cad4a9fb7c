import Lindenmayer.Proofs.Expander.Choosing
import Lindenmayer.Proofs.Expander.Resuming
import Mathlib.Logic.Function.Iterate

/-!
# A step is a morphism

A step over two words in a row is a step over the first and then, from the random stream that
this one leaves, a step over the second.

* Without a limit: words, streams and counts of a pass follow each other (`rewrite_append`).
* A step succeeds with exactly the word of that pass, if it fits (`step_eq_ok_iff`).
* Tokens take their draws from left to right, one for each symbol with a choice of rules
  (`draws_fate`, `draws_rewrite`).
* So steps are put together and taken apart at any place of a word (`step_append_iff`).
-/

namespace Lindenmayer

/-- The random stream after so many draws. -/
def RandomStream.drawn (stream : RandomStream) (n : Nat) : RandomStream :=
  (fun stream : RandomStream => stream.unit.2)^[n] stream

theorem RandomStream.drawn_add (stream : RandomStream) (n m : Nat) :
    stream.drawn (n + m) = (stream.drawn n).drawn m := by
  unfold drawn
  rw [Nat.add_comm, Function.iterate_add_apply]

namespace Expander

/-- The token is a symbol with two rules or more, so that a draw has to choose. -/
def chooses (expander : Expander) : Token → Bool
  | .symbol letter => 2 ≤ expander.table.count letter
  | .assign | .direction _ | .push | .pop | .finish => false

/-- The token is no symbol, or a symbol without rules. -/
def copies (expander : Expander) : Token → Bool
  | .symbol letter => expander.table.count letter = 0
  | .assign | .direction _ | .push | .pop | .finish => true

variable {expander : Expander}

/-! ## Tokens -/

/-- What the table holds for a symbol decides between the three ways in which it can go. -/
theorem fate_symbol (expander : Expander) (letter : Char) (stream : RandomStream) :
    (expander.table.count letter = 0 ∧
      expander.fate (.symbol letter) stream = (.terminal, stream)) ∨
    (expander.table.count letter = 1 ∧
      ∃ rule, expander.fate (.symbol letter) stream = (.replaced rule, stream)) ∨
    (2 ≤ expander.table.count letter ∧
      ∃ fate : Fate, fate.tally.draws = 1 ∧
        expander.fate (.symbol letter) stream = (fate, stream.unit.2)) := by
  rw [fate_symbol_eq, ProductionTable.count_eq_length]
  match expander.table.rulesOf letter with
  | [] => exact .inl ⟨rfl, rfl⟩
  | [rule] => exact .inr (.inl ⟨rfl, rule, rfl⟩)
  | first :: second :: rest =>
      exact .inr (.inr ⟨Nat.le_add_left 2 rest.length, _, Fate.draws_ofChoice .., rfl⟩)

/-- Only a token that has a choice moves the random stream on, by one draw, and is counted. -/
theorem draws_fate (expander : Expander) (t : Token) (stream : RandomStream) :
    (expander.fate t stream).2 = stream.drawn (if expander.chooses t then 1 else 0) ∧
      (expander.fate t stream).1.tally.draws = if expander.chooses t then 1 else 0 := by
  cases t with
  | symbol letter =>
      rcases expander.fate_symbol letter stream with
        ⟨hcount, hfate⟩ | ⟨hcount, rule, hfate⟩ | ⟨hcount, fate, hdraws, hfate⟩
      · simp [chooses, hcount, hfate, RandomStream.drawn, Fate.tally]
      · simp [chooses, hcount, hfate, RandomStream.drawn, Fate.tally]
      · simp [chooses, hcount, hfate, RandomStream.drawn, hdraws]
  | assign | direction | push | pop | finish => exact ⟨rfl, rfl⟩

theorem output_of_copies {t : Token} (h : expander.copies t = true) (stream : RandomStream) :
    (expander.fate t stream).1.output t = [t] := by
  cases t with
  | symbol letter =>
      have hnone : expander.table.count letter = 0 := by simpa [copies] using h
      rcases expander.fate_symbol letter stream with ⟨-, hfate⟩ | ⟨hcount, -⟩ | ⟨hcount, -⟩
      · rw [hfate]
        rfl
      · omega
      · omega
  | assign | direction | push | pop | finish => rfl

/-! ## Passes -/

theorem rewrite_append (u v : Word) (stream : RandomStream) :
    expander.rewrite (u ++ v) stream =
      ((expander.rewrite u stream).1 ++
          (expander.rewrite v (expander.rewrite u stream).2.1).1,
        (expander.rewrite v (expander.rewrite u stream).2.1).2.1,
        (expander.rewrite u stream).2.2.add
          (expander.rewrite v (expander.rewrite u stream).2.1).2.2) := by
  induction u generalizing stream with
  | nil => simp [rewrite]
  | cons t rest ih =>
      rw [List.cons_append]
      simp only [rewrite, ih, List.append_assoc, Tally.add_assoc]

/-- Draws are taken from left to right, one for each token that has a choice. -/
theorem draws_rewrite (expander : Expander) (word : Word) (stream : RandomStream) :
    (expander.rewrite word stream).2.1 = stream.drawn (word.countP expander.chooses) ∧
      (expander.rewrite word stream).2.2.draws = word.countP expander.chooses := by
  induction word generalizing stream with
  | nil => exact ⟨rfl, rfl⟩
  | cons t rest ih =>
      obtain ⟨hstream, hdraws⟩ := ih (expander.fate t stream).2
      obtain ⟨hnext, hdraw⟩ := expander.draws_fate t stream
      rw [List.countP_cons, Nat.add_comm]
      refine ⟨?_, ?_⟩
      · rw [RandomStream.drawn_add, ← hnext]
        exact hstream
      · rw [← hdraw, ← hdraws]
        rfl

/-! ## Steps -/

/-- A step succeeds where the word of a pass without a limit fits, and gives that word. -/
theorem step_eq_ok_iff {word built : Word} {progress after : Progress} :
    expander.step word progress = (.ok built, after) ↔
      built = (expander.rewrite word progress.stream).1 ∧
      built.length ≤ expander.limits.wordLength ∧
      after.stream = (expander.rewrite word progress.stream).2.1 ∧
      after.metrics = progress.metrics.count (expander.rewrite word progress.stream).2.2 := by
  constructor
  · intro h
    obtain ⟨hbuilt, hstream, hmetrics⟩ := step_eq_ok h
    exact ⟨hbuilt, length_of_step h, hstream, hmetrics⟩
  · rintro ⟨rfl, hfits, hstream, hmetrics⟩
    obtain ⟨last, hstep, -⟩ := step_of_fits hfits
    obtain ⟨-, hstream', hmetrics'⟩ := step_eq_ok hstep
    have hlast : last = after := by
      cases last
      cases after
      simp_all
    rw [hstep, hlast]

theorem step_singleton (t : Token) (progress : Progress) :
    expander.step [t] progress =
      (if ((expander.fate t progress.stream).1.output t).length ≤ expander.limits.wordLength then
          .ok ((expander.fate t progress.stream).1.output t)
        else .error ⟨.wordLength, ((expander.fate t progress.stream).1.output t).length,
          expander.limits.wordLength⟩,
        { stream := (expander.fate t progress.stream).2
          metrics := progress.metrics.count (expander.fate t progress.stream).1.tally }) := by
  simp only [step, pass, Nat.zero_add, Tally.empty_add]
  split
  · simp
  · rfl

/-- What the parts come to, the whole comes to; the account that the whole is entered into is of no
matter. -/
theorem step_append_of_steps {u v first second : Word} {progress mid last : Progress}
    (hu : expander.step u { stream := progress.stream } = (.ok first, mid))
    (hv : expander.step v { stream := mid.stream } = (.ok second, last))
    (hfits : first.length + second.length ≤ expander.limits.wordLength) :
    expander.step (u ++ v) progress =
      (.ok (first ++ second),
        { stream := last.stream
          metrics := progress.metrics.count (mid.metrics.tally.add last.metrics.tally) }) := by
  obtain ⟨hfirst, -, hmid, hu⟩ := step_eq_ok_iff.1 hu
  obtain ⟨hsecond, -, hlast, hv⟩ := step_eq_ok_iff.1 hv
  dsimp only at hfirst hmid hu hsecond hlast hv
  rw [hmid] at hsecond hlast hv
  rw [step_eq_ok_iff, rewrite_append, hu, hv, List.length_append]
  refine ⟨by rw [hfirst, hsecond], hfits, hlast, ?_⟩
  simp only [Metrics.count, Tally.empty_add]

theorem steps_of_step_append {u v built : Word} {progress after : Progress}
    (h : expander.step (u ++ v) progress = (.ok built, after)) :
    ∃ first mid second last,
      expander.step u { stream := progress.stream } = (.ok first, mid) ∧
      expander.step v { stream := mid.stream } = (.ok second, last) ∧
      first.length + second.length ≤ expander.limits.wordLength ∧ built = first ++ second ∧
      after.stream = last.stream ∧
      after.metrics = progress.metrics.count (mid.metrics.tally.add last.metrics.tally) := by
  obtain ⟨hbuilt, hfits, -, -⟩ := step_eq_ok_iff.1 h
  rw [hbuilt, rewrite_append, List.length_append] at hfits
  -- Each part is no longer than the whole, which fits.
  have hfirst : (expander.rewrite u progress.stream).1.length ≤ expander.limits.wordLength :=
    Nat.le_trans (Nat.le_add_right ..) hfits
  obtain ⟨mid, hu, hmid⟩ := @step_of_fits _ _ { stream := progress.stream } hfirst
  have hsecond : (expander.rewrite v mid.stream).1.length ≤ expander.limits.wordLength := by
    rw [hmid]
    exact Nat.le_trans (Nat.le_add_left ..) hfits
  obtain ⟨last, hv, -⟩ := @step_of_fits _ _ { stream := mid.stream } hsecond
  have hsum := hfits
  rw [← hmid] at hsum
  have hwhole := step_append_of_steps hu hv hsum
  rw [h] at hwhole
  cases hwhole
  exact ⟨_, mid, _, last, hu, hv, hsum, rfl, rfl, rfl⟩

/-- A step over two words in a row is one over the first and one over the second, from the random
stream that the first leaves: the words append and the counts add up. It succeeds if and only if
both do and what they build fits together. A token takes one draw if it is a symbol with two
rules or more, and none otherwise; a token that is no symbol or has no rules stays as it is. -/
theorem step_append_iff (expander : Expander) :
    (∀ (u v built : Word) (progress after : Progress),
      expander.step (u ++ v) progress = (.ok built, after) ↔
        ∃ first mid second last,
          expander.step u { stream := progress.stream } = (.ok first, mid) ∧
          expander.step v { stream := mid.stream } = (.ok second, last) ∧
          first.length + second.length ≤ expander.limits.wordLength ∧ built = first ++ second ∧
          after.stream = last.stream ∧
          after.metrics = progress.metrics.count (mid.metrics.tally.add last.metrics.tally)) ∧
    (∀ (t : Token) (progress : Progress),
      let draws := if expander.chooses t then 1 else 0
      (expander.step [t] progress).2.stream = progress.stream.drawn draws ∧
        (expander.step [t] progress).2.metrics.tally.draws =
          progress.metrics.tally.draws + draws ∧
        (expander.copies t = true → (expander.step [t] progress).1 =
          if 1 ≤ expander.limits.wordLength then .ok [t]
          else .error ⟨.wordLength, 1, expander.limits.wordLength⟩)) ∧
    ∀ (word built : Word) (progress after : Progress),
      expander.step word progress = (.ok built, after) →
        let draws := word.countP expander.chooses
        after.stream = progress.stream.drawn draws ∧
          after.metrics.tally.draws = progress.metrics.tally.draws + draws := by
  refine ⟨?_, ?_, ?_⟩
  · intro u v built progress after
    constructor
    · exact steps_of_step_append
    · rintro ⟨first, mid, second, last, hu, hv, hfits, rfl, hstream, hmetrics⟩
      rw [step_append_of_steps hu hv hfits, ← hstream, ← hmetrics]
  · intro t progress
    obtain ⟨hstream, hdraws⟩ := expander.draws_fate t progress.stream
    rw [step_singleton]
    refine ⟨hstream, ?_, ?_⟩
    · rw [← hdraws]
      rfl
    · intro hcopies
      rw [output_of_copies hcopies]
      rfl
  · intro word built progress after h
    obtain ⟨-, hstream, hmetrics⟩ := step_eq_ok h
    obtain ⟨hdrawn, hdraws⟩ := expander.draws_rewrite word progress.stream
    refine ⟨hstream.trans hdrawn, ?_⟩
    rw [hmetrics, ← hdraws]
    rfl

/-- A step over `F[` and one over `F]X`: the first `F` is replaced and the second is dropped, by a
draw each, and the rest stays. -/
theorem step_append_branching :
    ∃ mid last after,
      branching.step [.symbol 'F', .push] { stream := .ofSeed 0 } =
        (.ok [.symbol 'F', .symbol 'F', .push], mid) ∧
      branching.step [.symbol 'F', .pop, .symbol 'X'] { stream := mid.stream } =
        (.ok [.pop, .symbol 'X'], last) ∧
      branching.step ([.symbol 'F', .push] ++ [.symbol 'F', .pop, .symbol 'X'])
        { stream := .ofSeed 0 } =
          (.ok [.symbol 'F', .symbol 'F', .push, .pop, .symbol 'X'], after) ∧
      after.stream = (RandomStream.ofSeed 0).drawn 2 ∧ after.metrics.tally.draws = 2 ∧
      (branching.step [.symbol 'X'] after).1 = .ok [.symbol 'X'] := by
  obtain ⟨happend, htoken, hdraws⟩ := step_append_iff branching
  have hfirst : (branching.step [.symbol 'F', .push] { stream := .ofSeed 0 }).1.toOption =
      some [.symbol 'F', .symbol 'F', .push] := by decide +kernel
  rcases hu : branching.step [.symbol 'F', .push] { stream := .ofSeed 0 } with
    ⟨error | first, mid⟩
  · rw [hu] at hfirst
    cases hfirst
  rw [hu] at hfirst
  cases hfirst
  have hsecond : (branching.step [.symbol 'F', .pop, .symbol 'X']
      { stream := (branching.step [.symbol 'F', .push]
        { stream := .ofSeed 0 }).2.stream }).1.toOption =
      some [.pop, .symbol 'X'] := by decide +kernel
  rw [hu] at hsecond
  rcases hv : branching.step [.symbol 'F', .pop, .symbol 'X'] { stream := mid.stream } with
    ⟨error | second, last⟩
  · rw [hv] at hsecond
    cases hsecond
  rw [hv] at hsecond
  cases hsecond
  have hwhole := (happend _ _ _ { stream := .ofSeed 0 }
    ⟨last.stream, ({} : Metrics).count (mid.metrics.tally.add last.metrics.tally)⟩).2
      ⟨_, mid, _, last, hu, hv, by decide, rfl, rfl, rfl⟩
  obtain ⟨hstream, hcount⟩ := hdraws _ _ _ _ hwhole
  have hchosen : ([.symbol 'F', .push] ++ [.symbol 'F', .pop, .symbol 'X'] : Word).countP
      branching.chooses = 2 := by decide +kernel
  rw [hchosen] at hstream hcount
  have hcopies : branching.copies (.symbol 'X') = true := by decide +kernel
  exact ⟨mid, last, _, rfl, hv, hwhole, hstream, hcount, (htoken _ _).2.2 hcopies⟩

end Expander

end Lindenmayer
