import Lindenmayer.Expander

/-!
# Passes without a limit

`Expander.rewrite` is a pass that builds words of any length. A pass under the limit that
succeeds is that pass (`pass_eq_ok`), so what such passes keep, whole expansions keep
(`iterate_induction`, `expand_induction`).
-/

namespace Lindenmayer

/-- What is chosen was there to be chosen. -/
theorem mem_of_firstReaching {α β : Type} [Add α] [LE α] [DecidableLE α] {weight : β → α}
    {draw sum : α} {items : List β} {item : β}
    (h : firstReaching weight draw sum items = some item) : item ∈ items := by
  induction items generalizing sum with
  | nil => cases h
  | cons head rest ih =>
      unfold firstReaching at h
      dsimp only at h
      split at h
      · cases h
        exact List.mem_cons_self
      · exact List.mem_cons_of_mem _ (ih h)

namespace Expander

/-- A token stays, or it is a symbol and goes, or the body of one of its rules stands for it. -/
theorem output_cases (expander : Expander) (t : Token) (stream : RandomStream) :
    (expander.fate t stream).1.output t = [t] ∨ ∃ letter, t = .symbol letter ∧
      ((expander.fate t stream).1.output t = [] ∨
        ∃ alternatives, expander.table.get? letter = some alternatives ∧
          ∃ rule ∈ alternatives.toList, (expander.fate t stream).1.output t = rule.right) := by
  unfold fate
  split
  · exact .inl rfl
  · next letter hletter =>
    have hsymbol : t = .symbol letter := by
      cases t <;> simp_all [Token.letter?]
    split
    · exact .inl rfl
    · next rule hget =>
      exact .inr ⟨letter, hsymbol, .inr ⟨_, hget, rule, List.mem_cons_self, rfl⟩⟩
    · next alternatives _ hget =>
      dsimp only
      split
      · next rule hchoice =>
        have hmem : rule ∈ alternatives.toList := mem_of_firstReaching hchoice
        exact .inr ⟨letter, hsymbol, .inr ⟨alternatives, hget, rule, hmem, rfl⟩⟩
      · exact .inr ⟨letter, hsymbol, .inl rfl⟩
      · exact .inl rfl

/-- The word after a pass, the random stream after it, and what was counted. -/
def rewrite (expander : Expander) : Word → RandomStream → Word × RandomStream × Tally
  | [], stream => ([], stream, {})
  | t :: rest, stream =>
      let (fate, stream) := expander.fate t stream
      let (tail, stream, tally) := expander.rewrite rest stream
      (fate.output t ++ tail, stream, fate.tally.add tally)

variable {expander : Expander}

/-- A pass that succeeds builds the word that a pass without a limit builds. -/
theorem pass_eq_ok {word done built : Word} {length : Nat} {stream stream' : RandomStream}
    {tally tally' : Tally}
    (h : expander.pass word done length stream tally = (.ok built, stream', tally')) :
    built = done.reverse ++ (expander.rewrite word stream).1 ∧
      stream' = (expander.rewrite word stream).2.1 ∧
      tally' = tally.add (expander.rewrite word stream).2.2 := by
  induction word generalizing done length stream tally with
  | nil =>
      cases h
      exact ⟨(List.append_nil _).symm, rfl, rfl⟩
  | cons t rest ih =>
      unfold pass at h
      dsimp only at h
      split at h
      · obtain ⟨hbuilt, hstream, htally⟩ := ih h
        refine ⟨?_, hstream, ?_⟩
        · rw [hbuilt, List.reverseAux_eq, List.reverse_append, List.reverse_reverse,
            List.append_assoc]
          rfl
        · rw [htally, Tally.add_assoc]
          rfl
      · cases h

/-- A step is a pass from the beginning, and counts what the pass counted. -/
theorem pass_of_step {word : Word} {progress after : Progress} {result : Except LimitError Word}
    (h : expander.step word progress = (result, after)) :
    ∃ tally, expander.pass word [] 0 progress.stream {} = (result, after.stream, tally) ∧
      after.metrics = progress.metrics.count tally := by
  unfold step at h
  rcases hpass : expander.pass word [] 0 progress.stream {} with ⟨result, stream, tally⟩
  rw [hpass] at h
  cases h
  exact ⟨tally, rfl, rfl⟩

/-- A step that succeeds is a pass without a limit. -/
theorem step_eq_ok {word built : Word} {progress after : Progress}
    (h : expander.step word progress = (.ok built, after)) :
    built = (expander.rewrite word progress.stream).1 ∧
      after.stream = (expander.rewrite word progress.stream).2.1 ∧
      after.metrics = progress.metrics.count (expander.rewrite word progress.stream).2.2 := by
  obtain ⟨tally, hpass, hmetrics⟩ := pass_of_step h
  obtain ⟨hbuilt, hstream, htally⟩ := pass_eq_ok hpass
  exact ⟨hbuilt, hstream, by rw [hmetrics, htally, Tally.empty_add]⟩

/-- What each pass keeps, passes keep. -/
theorem iterate_induction {P : Nat → Word → Prop}
    (hpass : ∀ k word stream, P k word → P (k + 1) (expander.rewrite word stream).1) {n k : Nat}
    {word built : Word} {progress after : Progress} (hword : P k word)
    (h : expander.iterate n word progress = (.ok built, after)) : P (k + n) built := by
  induction n generalizing k word progress with
  | zero =>
      cases h
      exact hword
  | succ n ih =>
      unfold iterate at h
      split at h
      · cases h
      · next hstep =>
        have hnext := hpass k word progress.stream hword
        rw [← (step_eq_ok hstep).1] at hnext
        have := ih hnext h
        rwa [Nat.add_right_comm] at this

/-- An expansion that succeeds makes as many passes as it was asked for, and no more than
the limit. -/
theorem expand_induction {P : Nat → Word → Prop}
    (hpass : ∀ k word stream, P k word → P (k + 1) (expander.rewrite word stream).1) {n : Nat}
    {word built : Word} {progress after : Progress} (hword : P 0 word)
    (h : expander.expand n word progress = (.ok built, after)) :
    n ≤ expander.limits.iterations ∧ P n built := by
  unfold expand at h
  dsimp only at h
  split at h
  · cases h
  split at h
  · cases h
  · next hiterations _ =>
    refine ⟨Nat.le_of_not_lt hiterations, ?_⟩
    have := iterate_induction hpass hword h
    rwa [Nat.zero_add] at this

end Expander

end Lindenmayer
