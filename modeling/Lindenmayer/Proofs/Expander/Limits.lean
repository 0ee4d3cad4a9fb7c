import Lindenmayer.Proofs.Expander.Rewriting
import Lindenmayer.Proofs.Rule.Table
import Mathlib.Data.List.MinMax
import Mathlib.Data.Nat.Find
import Mathlib.Order.Nat

/-!
# Expansion under limits

Limits decide whether an expansion succeeds and never what it gives. `Expander.rewrites` makes
passes without any limit; its words are what an expansion is compared with.

* No word held during a step is beyond the limit (`watchedStep_fst`, `length_of_held`).
* A pass fails at the first token whose output does not fit, with a length that is not far above
  the limit and not above that of the whole pass (`pass_eq_error`, `Overrun`).
* Lengths only grow along a pass, so a step succeeds if and only if its whole word fits
  (`step_of_fits`, `step_of_exceeds`).
* Passes succeed as long as all words so far fit (`iterate_of_fits`), and fail in the first pass
  whose word does not (`iterate_of_exceeds`).
* So the limits and the lengths of the unlimited words say all about an expansion
  (`expand_limited`).
-/

namespace Lindenmayer

/-- All rules of the table. -/
def ProductionTable.rules (table : ProductionTable) : List Rule :=
  table.entries.flatMap fun entry => entry.2.toList

/-- Length of the longest body of a rule. -/
def ProductionTable.longestBody (table : ProductionTable) : Nat :=
  (table.rules.map fun rule => rule.right.length).foldr max 0

theorem ProductionTable.length_le_longestBody {table : ProductionTable} {symbol : Char}
    {alternatives : Alternatives} (hget : table.get? symbol = some alternatives) {rule : Rule}
    (hrule : rule ∈ alternatives.toList) : rule.right.length ≤ table.longestBody := by
  have hmem : rule ∈ table.rules :=
    List.mem_flatMap.2 ⟨_, mem_entries_of_get? hget, hrule⟩
  exact List.le_max_of_le (List.mem_map_of_mem hmem) (Nat.le_refl _)

namespace Expander

/-- The word after so many passes without a limit, and the random stream after it. -/
def rewrites (expander : Expander) : Nat → Word → RandomStream → Word × RandomStream
  | 0, word, stream => (word, stream)
  | n + 1, word, stream =>
      let (word, stream, _) := expander.rewrite word stream
      expander.rewrites n word stream

/-- The length of the word after so many passes without a limit. -/
def lengthAfter (expander : Expander) (n : Nat) (word : Word) (stream : RandomStream) : Nat :=
  (expander.rewrites n word stream).1.length

variable {expander : Expander}

theorem lengthAfter_succ (n : Nat) (word : Word) (stream : RandomStream) :
    expander.lengthAfter (n + 1) word stream =
      expander.lengthAfter n (expander.rewrite word stream).1
        (expander.rewrite word stream).2.1 := rfl

/-! ## Words held during a pass -/

/-- A pass that also keeps the words it held, one for each token it came to and the last one. -/
def watchedPass (expander : Expander) :
    Word → (done : Word) → (length : Nat) → RandomStream → Tally →
      (Except LimitError Word × RandomStream × Tally) × List Word
  | [], done, _, stream, tally => ((.ok done.reverse, stream, tally), [done.reverse])
  | t :: rest, done, length, stream, tally =>
      let (fate, stream) := expander.fate t stream
      let output := fate.output t
      let tally := tally.add fate.tally
      let length := length + output.length
      if length ≤ expander.limits.wordLength then
        let (result, held) :=
          expander.watchedPass rest (output.reverseAux done) length stream tally
        (result, done.reverse :: held)
      else
        ((.error ⟨.wordLength, length, expander.limits.wordLength⟩, stream, tally),
          [done.reverse])

/-- A step that also keeps the words it held. -/
def watchedStep (expander : Expander) (word : Word) (progress : Progress) :
    (Except LimitError Word × Progress) × List Word :=
  let ((result, stream, tally), held) := expander.watchedPass word [] 0 progress.stream {}
  ((result, { stream, metrics := progress.metrics.count tally }), held)

theorem watchedPass_fst (word done : Word) (length : Nat) (stream : RandomStream)
    (tally : Tally) :
    (expander.watchedPass word done length stream tally).1 =
      expander.pass word done length stream tally := by
  induction word generalizing done length stream tally with
  | nil => rfl
  | cons t rest ih =>
      unfold watchedPass pass
      dsimp only
      split
      · exact ih ..
      · rfl

theorem watchedStep_fst (word : Word) (progress : Progress) :
    (expander.watchedStep word progress).1 = expander.step word progress := by
  unfold watchedStep step
  rw [← watchedPass_fst]

/-- The word that a pass gives is one of those that it held. -/
theorem mem_held_of_pass {word done built : Word} {length : Nat} {stream : RandomStream}
    {tally : Tally} {rest : RandomStream × Tally}
    (h : expander.pass word done length stream tally = (.ok built, rest)) :
    built ∈ (expander.watchedPass word done length stream tally).2 := by
  induction word generalizing done length stream tally with
  | nil =>
      cases h
      exact List.mem_singleton_self _
  | cons t tail ih =>
      unfold pass at h
      unfold watchedPass
      dsimp only at h ⊢
      split at h
      · next hroom =>
        rw [if_pos hroom]
        exact List.mem_cons_of_mem _ (ih h)
      · cases h

/-- No word held is beyond the limit. -/
theorem length_of_held {word done held : Word} {length : Nat} {stream : RandomStream}
    {tally : Tally} (hlength : done.length = length)
    (hfits : length ≤ expander.limits.wordLength)
    (hheld : held ∈ (expander.watchedPass word done length stream tally).2) :
    held.length ≤ expander.limits.wordLength := by
  have hnow : done.reverse.length ≤ expander.limits.wordLength := by
    rw [List.length_reverse, hlength]
    exact hfits
  induction word generalizing done length stream tally with
  | nil =>
      rw [List.mem_singleton.1 hheld]
      exact hnow
  | cons t rest ih =>
      unfold watchedPass at hheld
      dsimp only at hheld
      split at hheld
      · next hroom =>
        rcases List.mem_cons.1 hheld with rfl | hlater
        · exact hnow
        · have hnext : (((expander.fate t stream).1.output t).reverseAux done).length =
              length + ((expander.fate t stream).1.output t).length := by
            simp [hlength, Nat.add_comm]
          refine ih hnext hroom hlater ?_
          rw [List.length_reverse, hnext]
          exact hroom
      · rw [List.mem_singleton.1 hheld]
        exact hnow

theorem length_of_step {word built : Word} {progress after : Progress}
    (h : expander.step word progress = (.ok built, after)) :
    built.length ≤ expander.limits.wordLength := by
  obtain ⟨tally, hpass, -⟩ := pass_of_step h
  exact length_of_held rfl (Nat.zero_le _) (mem_held_of_pass hpass)

/-! ## One pass -/

/-- The error refuses a word of `length` tokens in the making: it tells of a length that is above
the limit, but by no more than one token can bring, and that such a word comes to. -/
structure Overrun (expander : Expander) (length : Nat) (error : LimitError) : Prop where
  kind : error.kind = .wordLength
  limit : error.limit = expander.limits.wordLength
  above : expander.limits.wordLength < error.value
  near : error.value ≤ expander.limits.wordLength + max 1 expander.table.longestBody
  within : error.value ≤ length

theorem length_output_le (t : Token) (stream : RandomStream) :
    ((expander.fate t stream).1.output t).length ≤ max 1 expander.table.longestBody := by
  rcases expander.output_cases t stream with hout | ⟨letter, -, hout | ⟨_, hget, rule, hrule, hout⟩⟩
  · rw [hout]
    exact Nat.le_max_left ..
  · rw [hout]
    exact Nat.zero_le _
  · rw [hout]
    exact Nat.le_trans (ProductionTable.length_le_longestBody hget hrule) (Nat.le_max_right ..)

theorem length_rewrite_cons (t : Token) (rest : Word) (stream : RandomStream) :
    (expander.rewrite (t :: rest) stream).1.length =
      ((expander.fate t stream).1.output t).length +
        (expander.rewrite rest (expander.fate t stream).2).1.length :=
  List.length_append

/-- A pass that fails met a token whose output did not fit any more. -/
theorem pass_eq_error {word done : Word} {length : Nat} {stream : RandomStream} {tally : Tally}
    {error : LimitError} {rest : RandomStream × Tally}
    (hfits : length ≤ expander.limits.wordLength)
    (h : expander.pass word done length stream tally = (.error error, rest)) :
    expander.Overrun (length + (expander.rewrite word stream).1.length) error := by
  induction word generalizing done length stream tally with
  | nil => cases h
  | cons t tail ih =>
      have houtput : ((expander.fate t stream).1.output t).length ≤ _ :=
        length_output_le t stream
      have hsum : (expander.rewrite (t :: tail) stream).1.length = _ :=
        length_rewrite_cons t tail stream
      unfold pass at h
      dsimp only at h
      split at h
      · next hroom =>
        -- the token is in, so what fails is the pass over the rest
        have hrest := ih hroom h
        rw [Nat.add_assoc, ← hsum] at hrest
        exact hrest
      · next hfull =>
        cases h
        refine ⟨rfl, rfl, Nat.lt_of_not_le hfull, ?_, ?_⟩
        · exact Nat.add_le_add hfits houtput
        · show length + _ ≤ _
          omega

theorem step_eq_error {word : Word} {progress after : Progress} {error : LimitError}
    (h : expander.step word progress = (.error error, after)) :
    expander.Overrun (expander.rewrite word progress.stream).1.length error := by
  obtain ⟨tally, hpass, -⟩ := pass_of_step h
  have hoverrun := pass_eq_error (Nat.zero_le _) hpass
  rwa [Nat.zero_add] at hoverrun

theorem step_of_fits {word : Word} {progress : Progress}
    (h : (expander.rewrite word progress.stream).1.length ≤ expander.limits.wordLength) :
    ∃ after, expander.step word progress =
        (.ok (expander.rewrite word progress.stream).1, after) ∧
      after.stream = (expander.rewrite word progress.stream).2.1 := by
  rcases hstep : expander.step word progress with ⟨error | built, after⟩
  · have hoverrun := step_eq_error hstep
    exact absurd (Nat.le_trans hoverrun.within h) (Nat.not_le_of_lt hoverrun.above)
  · obtain ⟨rfl, hstream, -⟩ := step_eq_ok hstep
    exact ⟨after, rfl, hstream⟩

theorem step_of_exceeds {word : Word} {progress : Progress}
    (h : expander.limits.wordLength < (expander.rewrite word progress.stream).1.length) :
    ∃ error after, expander.step word progress = (.error error, after) ∧
      expander.Overrun (expander.rewrite word progress.stream).1.length error := by
  rcases hstep : expander.step word progress with ⟨error | built, after⟩
  · exact ⟨error, after, rfl, step_eq_error hstep⟩
  · have hlength := length_of_step hstep
    rw [(step_eq_ok hstep).1] at hlength
    exact absurd hlength (Nat.not_le_of_lt h)

/-! ## Several passes -/

/-- Passes succeed as long as all their words fit. -/
theorem iterate_of_fits {n : Nat} {word : Word} {progress : Progress}
    (h : ∀ k ≤ n, expander.lengthAfter k word progress.stream ≤ expander.limits.wordLength) :
    (expander.iterate n word progress).1 = .ok (expander.rewrites n word progress.stream).1 := by
  induction n generalizing word progress with
  | zero => rfl
  | succ n ih =>
      obtain ⟨after, hstep, hstream⟩ := step_of_fits (h 1 (Nat.succ_le_succ (Nat.zero_le n)))
      unfold iterate
      rw [hstep]
      refine (ih ?_).trans ?_
      · intro k hk
        have hnext := h (k + 1) (Nat.succ_le_succ hk)
        rw [lengthAfter_succ, ← hstream] at hnext
        exact hnext
      · show Except.ok (expander.rewrites n _ after.stream).1 = _
        rw [hstream]
        rfl

/-- Passes fail in the first of them whose word does not fit. -/
theorem iterate_of_exceeds {n k : Nat} {word : Word} {progress : Progress} (hk : k ≤ n)
    (hexceeds : expander.limits.wordLength < expander.lengthAfter k word progress.stream)
    (hbefore : ∀ j < k,
      expander.lengthAfter j word progress.stream ≤ expander.limits.wordLength)
    (hword : word.length ≤ expander.limits.wordLength) :
    ∃ error, (expander.iterate n word progress).1 = .error error ∧
      expander.Overrun (expander.lengthAfter k word progress.stream) error := by
  induction n generalizing k word progress with
  | zero =>
      obtain rfl := Nat.le_zero.1 hk
      exact absurd hword (Nat.not_le_of_lt hexceeds)
  | succ n ih =>
      cases k with
      | zero => exact absurd hword (Nat.not_le_of_lt hexceeds)
      | succ k =>
          unfold iterate
          by_cases hfits : (expander.rewrite word progress.stream).1.length ≤
            expander.limits.wordLength
          · obtain ⟨after, hstep, hstream⟩ := step_of_fits hfits
            rw [lengthAfter_succ, ← hstream] at hexceeds ⊢
            rw [hstep]
            refine ih (Nat.le_of_succ_le_succ hk) hexceeds ?_ hfits
            intro j hj
            have hnext := hbefore (j + 1) (Nat.succ_lt_succ hj)
            rw [lengthAfter_succ, ← hstream] at hnext
            exact hnext
          · -- were there a pass before the one that fails, this one would fit
            have hfirst : k = 0 := by
              by_contra hne
              exact hfits (hbefore 1 (Nat.succ_lt_succ (Nat.pos_of_ne_zero hne)))
            subst hfirst
            obtain ⟨error, after, hstep, hoverrun⟩ := step_of_exceeds (Nat.lt_of_not_le hfits)
            rw [hstep]
            exact ⟨error, rfl, hoverrun⟩

/-! ## Whole expansions -/

/-- An expansion that is not refused at once makes its passes under a fresh account. -/
theorem expand_of_le {n : Nat} {start : Word} {progress : Progress}
    (hn : n ≤ expander.limits.iterations) (hstart : start.length ≤ expander.limits.wordLength) :
    expander.expand n start progress =
      expander.iterate n start
        { stream := progress.stream, metrics := { lengths := [start.length] } } := by
  unfold expand
  dsimp only
  rw [if_neg (Nat.not_lt_of_le hn), if_neg (Nat.not_lt_of_le hstart)]
  rfl

theorem expand_of_many {n : Nat} {start : Word} {progress : Progress}
    (hmany : expander.limits.iterations < n) :
    (expander.expand n start progress).1 =
      .error ⟨.iterations, n, expander.limits.iterations⟩ :=
  congrArg Prod.fst (if_pos hmany)

theorem expand_of_long {n : Nat} {start : Word} {progress : Progress}
    (hn : n ≤ expander.limits.iterations) (hlong : expander.limits.wordLength < start.length) :
    (expander.expand n start progress).1 =
      .error ⟨.wordLength, start.length, expander.limits.wordLength⟩ := by
  unfold expand
  dsimp only
  rw [if_neg (Nat.not_lt_of_le hn), if_pos hlong]

theorem expand_of_fits {n : Nat} {start : Word} {progress : Progress}
    (hn : n ≤ expander.limits.iterations)
    (hfits : ∀ k ≤ n,
      expander.lengthAfter k start progress.stream ≤ expander.limits.wordLength) :
    (expander.expand n start progress).1 = .ok (expander.rewrites n start progress.stream).1 := by
  have hstart : start.length ≤ expander.limits.wordLength := hfits 0 (Nat.zero_le n)
  rw [expand_of_le hn hstart]
  exact iterate_of_fits hfits

theorem expand_of_exceeds {n k : Nat} {start : Word} {progress : Progress}
    (hn : n ≤ expander.limits.iterations) (hstart : start.length ≤ expander.limits.wordLength)
    (hk : k ≤ n)
    (hexceeds : expander.limits.wordLength < expander.lengthAfter k start progress.stream)
    (hbefore : ∀ j < k,
      expander.lengthAfter j start progress.stream ≤ expander.limits.wordLength) :
    ∃ error, (expander.expand n start progress).1 = .error error ∧
      expander.Overrun (expander.lengthAfter k start progress.stream) error := by
  rw [expand_of_le hn hstart]
  exact iterate_of_exceeds hk hexceeds hbefore hstart

theorem exists_first_exceeding {n : Nat} {start : Word} {stream : RandomStream}
    (h : ¬ ∀ k ≤ n, expander.lengthAfter k start stream ≤ expander.limits.wordLength) :
    ∃ k ≤ n, expander.limits.wordLength < expander.lengthAfter k start stream ∧
      ∀ j < k, expander.lengthAfter j start stream ≤ expander.limits.wordLength := by
  have hexceeds : ∃ k, k ≤ n ∧
      expander.limits.wordLength < expander.lengthAfter k start stream := by
    simpa using h
  obtain ⟨hk, hfirst⟩ := Nat.find_spec hexceeds
  refine ⟨Nat.find hexceeds, hk, hfirst, ?_⟩
  intro j hj
  by_contra hlong
  have hjn : j ≤ n := Nat.le_trans (Nat.le_of_lt hj) hk
  exact Nat.find_min hexceeds hj ⟨hjn, Nat.lt_of_not_le hlong⟩

/-- An expansion succeeds if and only if neither the number of its passes nor any of its words
is beyond the limits, and then it gives the word of as many passes without a limit. -/
theorem expand_eq_ok_iff {n : Nat} {start built : Word} {progress : Progress} :
    (expander.expand n start progress).1 = .ok built ↔
      n ≤ expander.limits.iterations ∧
      (∀ k ≤ n, expander.lengthAfter k start progress.stream ≤ expander.limits.wordLength) ∧
      built = (expander.rewrites n start progress.stream).1 := by
  constructor
  · intro h
    rcases Nat.lt_or_ge expander.limits.iterations n with hmany | hn
    · rw [expand_of_many hmany] at h
      cases h
    rcases Nat.lt_or_ge expander.limits.wordLength start.length with hlong | hstart
    · rw [expand_of_long hn hlong] at h
      cases h
    by_cases hfits : ∀ k ≤ n,
      expander.lengthAfter k start progress.stream ≤ expander.limits.wordLength
    · rw [expand_of_fits hn hfits] at h
      cases h
      exact ⟨hn, hfits, rfl⟩
    · obtain ⟨k, hk, hexceeds, hbefore⟩ := exists_first_exceeding hfits
      obtain ⟨error, herror, -⟩ := expand_of_exceeds hn hstart hk hexceeds hbefore
      rw [herror] at h
      cases h
  · rintro ⟨hn, hfits, rfl⟩
    exact expand_of_fits hn hfits

/-- Passes without a limit are the same under any limits. -/
theorem rewrites_limits (limits : ExpansionLimits) (n : Nat) (word : Word)
    (stream : RandomStream) :
    { expander with limits }.rewrites n word stream = expander.rewrites n word stream := by
  have hpass : ∀ (word : Word) (stream : RandomStream),
      { expander with limits }.rewrite word stream = expander.rewrite word stream := by
    intro word
    induction word with
    | nil => exact fun _ => rfl
    | cons t rest ih =>
        intro stream
        unfold rewrite
        dsimp only
        rw [ih]
        rfl
  induction n generalizing word stream with
  | zero => rfl
  | succ n ih =>
      unfold rewrites
      dsimp only
      rw [hpass, ih]

/-- Limits decide whether an expansion succeeds and which error it is refused with, but not what
it gives: that is the word of as many passes made without a limit on the same random stream.
Too many passes are refused first, then too long a start, then the first word that does not fit,
and this before any word beyond the limit is held. -/
theorem expand_limited (expander : Expander) (n : Nat) (start : Word) (progress : Progress) :
    (∀ built, (expander.expand n start progress).1 = .ok built ↔
      n ≤ expander.limits.iterations ∧
      (∀ k ≤ n, expander.lengthAfter k start progress.stream ≤ expander.limits.wordLength) ∧
      built = (expander.rewrites n start progress.stream).1) ∧
    (∀ limits : ExpansionLimits,
      ({ expander with limits }.rewrites n start progress.stream) =
        expander.rewrites n start progress.stream) ∧
    (expander.limits.iterations < n →
      (expander.expand n start progress).1 =
        .error ⟨.iterations, n, expander.limits.iterations⟩) ∧
    (n ≤ expander.limits.iterations → expander.limits.wordLength < start.length →
      (expander.expand n start progress).1 =
        .error ⟨.wordLength, start.length, expander.limits.wordLength⟩) ∧
    (n ≤ expander.limits.iterations → start.length ≤ expander.limits.wordLength →
      ∀ k ≤ n, expander.limits.wordLength < expander.lengthAfter k start progress.stream →
        (∀ j < k,
          expander.lengthAfter j start progress.stream ≤ expander.limits.wordLength) →
        ∃ value,
          (expander.expand n start progress).1 =
            .error ⟨.wordLength, value, expander.limits.wordLength⟩ ∧
          expander.limits.wordLength < value ∧
          value ≤ expander.limits.wordLength + max 1 expander.table.longestBody ∧
          value ≤ expander.lengthAfter k start progress.stream) ∧
    ∀ word progress,
      (expander.watchedStep word progress).1 = expander.step word progress ∧
      ∀ held ∈ (expander.watchedStep word progress).2,
        held.length ≤ expander.limits.wordLength := by
  refine ⟨fun built => expand_eq_ok_iff, fun limits => rewrites_limits limits .., expand_of_many,
    expand_of_long, ?_, ?_⟩
  · intro hn hstart k hk hexceeds hbefore
    obtain ⟨⟨kind, value, limit⟩, herror, hoverrun⟩ :=
      expand_of_exceeds hn hstart hk hexceeds hbefore
    obtain ⟨rfl, rfl, habove, hnear, hwithin⟩ := hoverrun
    exact ⟨value, herror, habove, hnear, hwithin⟩
  · intro word progress
    refine ⟨watchedStep_fst .., ?_⟩
    intro held hheld
    exact length_of_held rfl (Nat.zero_le _) hheld

/-- Words of 1, 2, 4, 8 and 16 tokens, of which ten fit: the fifth is refused as soon as twelve
are reached. -/
theorem expand_limited_doubling :
    ∃ value,
      (expand ⟨(RuleSet.mk .strict #[⟨"F:=FF", 1.0⟩]).compile.table, .drop, .of 8 10⟩ 5
        [.symbol 'F'] { stream := .ofSeed 0 }).1 = .error ⟨.wordLength, value, 10⟩ ∧
      10 < value ∧ value ≤ 12 := by
  obtain ⟨-, -, -, -, hexceeds, -⟩ := expand_limited
    ⟨(RuleSet.mk .strict #[⟨"F:=FF", 1.0⟩]).compile.table, .drop, .of 8 10⟩ 5 [.symbol 'F']
    { stream := .ofSeed 0 }
  obtain ⟨value, herror, habove, hnear, -⟩ :=
    hexceeds (by decide) (by decide) 4 (by decide) (by decide +kernel) (by decide +kernel)
  exact ⟨value, herror, habove, Nat.le_trans hnear (by decide +kernel)⟩

end Expander

end Lindenmayer
