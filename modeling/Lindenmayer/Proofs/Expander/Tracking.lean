import Lindenmayer.Expander

/-!
# Expanders that keep step

Two expanders keep step (`Tracks`) if each token comes to the same output in both, whatever the
related random streams they stand at. Then whole expansions come to the same outcome, be it a word
or an error, with the same lengths entered (`Tracks.expand`). How the streams and the counts of the
two are related is left open.
-/

namespace Lindenmayer

/-- The accounts enter the same lengths; streams and counts are related. -/
structure Progress.Related (R : RandomStream → RandomStream → Prop) (T : Tally → Tally → Prop)
    (first second : Progress) : Prop where
  stream : R first.stream second.stream
  lengths : first.metrics.lengths = second.metrics.lengths
  tally : T first.metrics.tally second.metrics.tally

namespace Expander

/-- From related streams a token comes to the same output, and to related streams and counts. -/
structure Tracks (R : RandomStream → RandomStream → Prop) (T : Tally → Tally → Prop)
    (first second : Expander) : Prop where
  limits : first.limits = second.limits
  output : ∀ t s s', R s s' → (first.fate t s).1.output t = (second.fate t s').1.output t
  stream : ∀ t s s', R s s' → R (first.fate t s).2 (second.fate t s').2
  tally : ∀ t s s', R s s' → T (first.fate t s).1.tally (second.fate t s').1.tally
  empty : T {} {}
  add : ∀ a a' b b', T a a' → T b b' → T (a.add b) (a'.add b')

namespace Tracks

variable {R : RandomStream → RandomStream → Prop} {T : Tally → Tally → Prop}
  {first second : Expander}

theorem pass (h : Tracks R T first second) (word done : Word) (length : Nat)
    {s s' : RandomStream} {tally tally' : Tally} (hs : R s s') (htally : T tally tally') :
    (first.pass word done length s tally).1 = (second.pass word done length s' tally').1 ∧
      R (first.pass word done length s tally).2.1 (second.pass word done length s' tally').2.1 ∧
      T (first.pass word done length s tally).2.2
        (second.pass word done length s' tally').2.2 := by
  induction word generalizing done length s s' tally tally' with
  | nil => exact ⟨rfl, hs, htally⟩
  | cons t rest ih =>
      have hnext := h.stream t s s' hs
      have hcount := h.add _ _ _ _ htally (h.tally t s s' hs)
      simp only [Expander.pass, h.output t s s' hs, h.limits]
      -- the lengths are the same, so both have room for the token or neither has
      split
      · exact ih _ _ hnext hcount
      · exact ⟨rfl, hnext, hcount⟩

theorem step (h : Tracks R T first second) (word : Word) {progress progress' : Progress}
    (hprogress : progress.Related R T progress') :
    (first.step word progress).1 = (second.step word progress').1 ∧
      (first.step word progress).2.Related R T (second.step word progress').2 := by
  obtain ⟨hout, hstream, htally⟩ := h.pass word [] 0 hprogress.stream h.empty
  exact ⟨hout, hstream, hprogress.lengths, h.add _ _ _ _ hprogress.tally htally⟩

theorem iterate (h : Tracks R T first second) (n : Nat) (word : Word)
    {progress progress' : Progress} (hprogress : progress.Related R T progress') :
    (first.iterate n word progress).1 = (second.iterate n word progress').1 ∧
      (first.iterate n word progress).2.Related R T (second.iterate n word progress').2 := by
  induction n generalizing word progress progress' with
  | zero => exact ⟨rfl, hprogress⟩
  | succ n ih =>
      obtain ⟨hout, hafter⟩ := h.step word hprogress
      unfold Expander.iterate
      generalize first.step word progress = result, second.step word progress' = result'
        at hout hafter ⊢
      obtain ⟨outcome, after⟩ := result
      obtain ⟨outcome', after'⟩ := result'
      obtain rfl : outcome = outcome' := hout
      cases outcome with
      | error error => exact ⟨rfl, hafter⟩
      | ok built =>
          have hlengths : (after.metrics.measure built.length).lengths =
              (after'.metrics.measure built.length).lengths :=
            congrArg (· ++ [built.length]) hafter.lengths
          exact ih built ⟨hafter.stream, hlengths, hafter.tally⟩

theorem expand (h : Tracks R T first second) (n : Nat) (start : Word)
    (progress progress' : Progress) (hs : R progress.stream progress'.stream) :
    (first.expand n start progress).1 = (second.expand n start progress').1 ∧
      (first.expand n start progress).2.Related R T (second.expand n start progress').2 := by
  unfold Expander.expand
  dsimp only
  rw [h.limits]
  split
  · exact ⟨rfl, hs, rfl, h.empty⟩
  split
  · exact ⟨rfl, hs, rfl, h.empty⟩
  · exact h.iterate n start ⟨hs, rfl, h.empty⟩

end Tracks

end Expander

end Lindenmayer
