import Lindenmayer.Proofs.Expander.Account
import Lindenmayer.Proofs.Expander.Tracking
import Mathlib.Logic.Function.Iterate

/-!
# Deterministic tables

Where no symbol has more than one rule, each token has an `image`, and passes are the iterates of
the morphism of words that it gives (`rewrites_of_deterministic`). Draws, policy and probabilities
have no influence; so two expanders with the same bodies keep step (`tracks_of_bodies`).
-/

namespace Lindenmayer

namespace ProductionTable

/-- No symbol has more than one rule. -/
def Deterministic (table : ProductionTable) : Prop := ∀ symbol, table.count symbol ≤ 1

/-- What stands for a token after a pass if no symbol has more than one rule. -/
def image (table : ProductionTable) (t : Token) : Word :=
  match t with
  | .symbol letter =>
      match table.rulesOf letter with
      | [] => [.symbol letter]
      | rule :: _ => rule.right
  | .assign | .direction _ | .push | .pop | .finish => [t]

/-- The tables have the same bodies in the same order for each symbol, with any probabilities. -/
def SameBodies (table other : ProductionTable) : Prop :=
  ∀ symbol, (table.rulesOf symbol).map Rule.right = (other.rulesOf symbol).map Rule.right

variable {table other : ProductionTable}

theorem deterministic_of_entries (h : ∀ entry ∈ table.entries, entry.2.others = []) :
    table.Deterministic := by
  intro symbol
  unfold count
  cases hget : table.get? symbol with
  | none => exact Nat.zero_le 1
  | some alternatives =>
      have hothers : alternatives.others = [] := h _ (mem_entries_of_get? hget)
      simp [Alternatives.toList, hothers]

theorem SameBodies.count_eq (h : table.SameBodies other) (symbol : Char) :
    table.count symbol = other.count symbol := by
  rw [count_eq_length, count_eq_length, ← List.length_map Rule.right, h symbol, List.length_map]

theorem SameBodies.deterministic (h : table.SameBodies other) (ht : table.Deterministic) :
    other.Deterministic := by
  intro symbol
  rw [← h.count_eq]
  exact ht symbol

theorem SameBodies.image_eq (h : table.SameBodies other) (t : Token) :
    table.image t = other.image t := by
  cases t with
  | symbol letter =>
      have hbodies := h letter
      cases hfirst : table.rulesOf letter with
      | nil =>
          rw [hfirst, List.map_nil] at hbodies
          simp [image, hfirst, List.map_eq_nil_iff.1 hbodies.symm]
      | cons rule rest =>
          rw [hfirst, List.map_cons] at hbodies
          obtain ⟨rule', rest', hsecond, hright, -⟩ := List.map_eq_cons_iff.1 hbodies.symm
          simp [image, hfirst, hsecond, hright]
  | assign | direction | push | pop | finish => rfl

end ProductionTable

namespace Expander

variable {expander : Expander}

/-- A token goes to its image without a draw. -/
theorem fate_of_deterministic (h : expander.table.Deterministic) (t : Token)
    (stream : RandomStream) :
    (expander.fate t stream).1.output t = expander.table.image t ∧
      (expander.fate t stream).2 = stream ∧
      (expander.fate t stream).1.tally =
        { terminals := if expander.isTerminal t then 1 else 0 } := by
  cases t with
  | symbol letter =>
      have hcount := h letter
      have hterminal : expander.isTerminal (.symbol letter) =
          decide ((expander.table.rulesOf letter).length = 0) := by
        rw [← ProductionTable.count_eq_length]
        rfl
      rw [ProductionTable.count_eq_length] at hcount
      rw [fate_symbol_eq]
      match hrules : expander.table.rulesOf letter with
      | [] => simp [ProductionTable.image, hterminal, hrules, Fate.output, Fate.tally]
      | [rule] => simp [ProductionTable.image, hterminal, hrules, Fate.output, Fate.tally]
      | first :: second :: rest => simp [hrules] at hcount
  | assign | direction | push | pop | finish => exact ⟨rfl, rfl, rfl⟩

theorem rewrite_of_deterministic (h : expander.table.Deterministic) (word : Word)
    (stream : RandomStream) :
    (expander.rewrite word stream).1 = word.flatMap expander.table.image := by
  induction word generalizing stream with
  | nil => rfl
  | cons t rest ih =>
      show (expander.fate t stream).1.output t ++
        (expander.rewrite rest (expander.fate t stream).2).1 = _
      rw [ih, (fate_of_deterministic h t stream).1, List.flatMap_cons]

/-- Passes are the iterates of a morphism of words. -/
theorem rewrites_of_deterministic (h : expander.table.Deterministic) (n : Nat) (word : Word)
    (stream : RandomStream) :
    (expander.rewrites n word stream).1 =
      (fun word : Word => word.flatMap expander.table.image)^[n] word := by
  induction n generalizing word stream with
  | zero => rfl
  | succ n ih =>
      rw [Function.iterate_succ_apply, ← rewrite_of_deterministic h word stream]
      exact ih ..

theorem rewrites_append (h : expander.table.Deterministic) (n : Nat) (u v : Word)
    (stream stream₁ stream₂ : RandomStream) :
    (expander.rewrites n (u ++ v) stream).1 =
      (expander.rewrites n u stream₁).1 ++ (expander.rewrites n v stream₂).1 := by
  -- the streams are of no matter, so that all three words are those of the morphism
  simp only [rewrites_of_deterministic h]
  induction n generalizing u v with
  | zero => rfl
  | succ n ih =>
      rw [Function.iterate_succ_apply, List.flatMap_append]
      exact ih ..

/-- If a word fits all along, so do its parts. -/
theorem expand_of_append (h : expander.table.Deterministic) {n : Nat} {u v built : Word}
    {progress : Progress} (hbuilt : (expander.expand n (u ++ v) progress).1 = .ok built)
    (progress₁ progress₂ : Progress) :
    ∃ first second, (expander.expand n u progress₁).1 = .ok first ∧
      (expander.expand n v progress₂).1 = .ok second ∧ built = first ++ second := by
  obtain ⟨hn, hfits, rfl⟩ := expand_eq_ok_iff.1 hbuilt
  -- in each pass the lengths of the parts add up to the length of the whole, which fits
  have hsum : ∀ k ≤ n, expander.lengthAfter k u progress₁.stream +
      expander.lengthAfter k v progress₂.stream ≤ expander.limits.wordLength := by
    intro k hk
    have := hfits k hk
    rw [lengthAfter, rewrites_append h k u v _ progress₁.stream progress₂.stream,
      List.length_append] at this
    exact this
  refine ⟨_, _, expand_eq_ok_iff.2 ⟨hn, ?_, rfl⟩, expand_eq_ok_iff.2 ⟨hn, ?_, rfl⟩,
    rewrites_append h n u v ..⟩
  · intro k hk
    exact Nat.le_trans (Nat.le_add_right ..) (hsum k hk)
  · intro k hk
    exact Nat.le_trans (Nat.le_add_left ..) (hsum k hk)

/-- Two expanders with the same bodies keep step, each staying where it is in its stream. -/
theorem tracks_of_bodies {table : ProductionTable} (h : expander.table.Deterministic)
    (hbodies : expander.table.SameBodies table) (policy : NoMatchPolicy)
    (stream stream' : RandomStream) :
    Tracks (fun s s' => s = stream ∧ s' = stream')
      (fun a b => a = b ∧ a.draws = 0 ∧ a.dropped = 0 ∧ a.kept = 0) expander
      ⟨table, policy, expander.limits⟩ where
  limits := rfl
  output t s s' _ := by
    rw [(fate_of_deterministic h t s).1,
      (fate_of_deterministic (hbodies.deterministic h) t s').1, hbodies.image_eq]
  stream t s s' hs := by
    rw [(fate_of_deterministic h t s).2.1,
      (fate_of_deterministic (hbodies.deterministic h) t s').2.1]
    exact hs
  tally t s s' _ := by
    have hterminal : expander.isTerminal t =
        isTerminal ⟨table, policy, expander.limits⟩ t := by
      cases t with
      | symbol letter => simp only [isTerminal, hbodies.count_eq]
      | assign | direction | push | pop | finish => rfl
    rw [(fate_of_deterministic h t s).2.2,
      (fate_of_deterministic (hbodies.deterministic h) t s').2.2, hterminal]
    exact ⟨rfl, rfl, rfl, rfl⟩
  empty := ⟨rfl, rfl, rfl, rfl⟩
  add a a' b b' ha hb := by
    obtain ⟨rfl, ha⟩ := ha
    obtain ⟨rfl, hb⟩ := hb
    simp [Tally.add, ha, hb]

/-- If no symbol has more than one rule, an expansion is a morphism of words: it takes a word that
is made of two parts to the results of the parts, one behind the other, and it succeeds for the
parts if it does for the whole. Nothing depends on the random streams, on the policy or on the
probabilities; no draw is taken, and nothing is left out or kept for want of a match. -/
theorem expand_deterministic {expander : Expander} (h : expander.table.Deterministic) (n : Nat) :
    (∀ (u v built : Word) (progress : Progress),
      (expander.expand n (u ++ v) progress).1 = .ok built →
        built = (fun word : Word => word.flatMap expander.table.image)^[n] (u ++ v) ∧
        ∀ progress₁ progress₂ : Progress, ∃ first second,
          (expander.expand n u progress₁).1 = .ok first ∧
          (expander.expand n v progress₂).1 = .ok second ∧ built = first ++ second) ∧
    (∀ (table : ProductionTable) (policy : NoMatchPolicy), expander.table.SameBodies table →
      ∀ (start : Word) (progress progress' : Progress),
        (expand ⟨table, policy, expander.limits⟩ n start progress').1 =
          (expander.expand n start progress).1) ∧
    ∀ (start : Word) (progress : Progress),
      let after := (expander.expand n start progress).2
      after.stream = progress.stream ∧ after.metrics.tally.draws = 0 ∧
        after.metrics.tally.dropped = 0 ∧ after.metrics.tally.kept = 0 := by
  refine ⟨?_, ?_, ?_⟩
  · intro u v built progress hbuilt
    refine ⟨?_, expand_of_append h hbuilt⟩
    obtain ⟨-, -, rfl⟩ := expand_eq_ok_iff.1 hbuilt
    exact rewrites_of_deterministic h n _ _
  · intro table policy hbodies start progress progress'
    have htracks := tracks_of_bodies h hbodies policy progress.stream progress'.stream
    exact (htracks.expand n start progress progress' ⟨rfl, rfl⟩).1.symm
  · intro start progress after
    have htracks := tracks_of_bodies h (fun _ => rfl) expander.policy progress.stream
      progress.stream
    obtain ⟨-, hstream, -, htally⟩ := htracks.expand n start progress progress ⟨rfl, rfl⟩
    exact ⟨hstream.1, htally.2⟩

/-- Two symbols with one rule each, of which one has the probability zero. -/
def certain : Expander where
  table := (RuleSet.mk .strict #[⟨"F:=F[F]", 0.0⟩, ⟨"X:=FX", 0.5⟩]).compile.table

/-- Both rules are applied twice over `X]F`, which is `X` and then `]F`. -/
theorem expand_deterministic_certain :
    ∃ first second,
      (certain.expand 2 [.symbol 'X'] { stream := .ofSeed 1 }).1 = .ok first ∧
      (certain.expand 2 [.pop, .symbol 'F'] { stream := .ofSeed 2 }).1 = .ok second ∧
      (certain.expand 2 ([.symbol 'X'] ++ [.pop, .symbol 'F']) { stream := .ofSeed 3 }).1 =
        .ok (first ++ second) ∧
      (first ++ second).length = 17 := by
  have htable : certain.table.Deterministic :=
    ProductionTable.deterministic_of_entries (by decide +kernel)
  obtain ⟨hmorphism, -, -⟩ := expand_deterministic htable 2
  have hlength : (certain.expand 2 ([.symbol 'X'] ++ [.pop, .symbol 'F'])
      { stream := .ofSeed 3 }).1.toOption.map List.length = some 17 := by decide +kernel
  rcases hwhole : (certain.expand 2 ([.symbol 'X'] ++ [.pop, .symbol 'F'])
    { stream := .ofSeed 3 }).1 with error | built
  · rw [hwhole] at hlength
    cases hlength
  · rw [hwhole] at hlength
    obtain ⟨-, hparts⟩ := hmorphism _ _ built _ hwhole
    obtain ⟨first, second, hfirst, hsecond, rfl⟩ :=
      hparts { stream := .ofSeed 1 } { stream := .ofSeed 2 }
    exact ⟨first, second, hfirst, hsecond, hwhole, Option.some.inj hlength⟩

end Expander

end Lindenmayer
