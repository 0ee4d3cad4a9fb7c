import Lindenmayer.Proofs.Expander.Choosing
import Lindenmayer.Proofs.Expander.Morphism
import Mathlib.Algebra.Ring.Nat

/-!
# The account of an expansion

What an expansion that succeeds has entered into its account is read off the words that its passes
began with. Those words are taken one behind the other, as the draws are.

* The account of two words in a row is that of the first and then that of the second, from where the
  first one leaves the random stream (`account_append`).
* A token is accounted for by what becomes of it (`account_token`), so a pass by its word
  (`tally_rewrite`), and passes by theirs (`iterate_account`).
-/

namespace Lindenmayer

/-- The first draws of a random stream. -/
def RandomStream.units (stream : RandomStream) (n : Nat) : List Float :=
  (List.range n).map fun k => (stream.drawn k).unit.1

theorem RandomStream.units_add (stream : RandomStream) (n m : Nat) :
    stream.units (n + m) = stream.units n ++ (stream.drawn n).units m := by
  unfold units
  rw [List.range_add, List.map_append, List.map_map]
  congr 2
  funext k
  simp [drawn_add]

/-- The draw is above every running sum of the rules, so that it matches none of them. -/
def Rule.unmatchedBy (rules : List Rule) (draw : Float) : Bool :=
  (Rule.runningSums rules).all fun total => !decide (draw ≤ total)

namespace Expander

/-- The token is a symbol without rules. -/
def isTerminal (expander : Expander) : Token → Bool
  | .symbol letter => expander.table.count letter = 0
  | .assign | .direction _ | .push | .pop | .finish => false

/-- The rules between which a draw has to choose for the token. -/
def choice? (expander : Expander) : Token → Option (List Rule)
  | .symbol letter =>
      if 2 ≤ expander.table.count letter then some (expander.table.rulesOf letter) else none
  | .assign | .direction _ | .push | .pop | .finish => none

/-- Number of draws that match no rule, where the tokens of the word that have a choice take the
draws of the stream in order. -/
def unmatched (expander : Expander) (word : Word) (stream : RandomStream) : Nat :=
  ((word.filterMap expander.choice?).zip (stream.units (word.countP expander.chooses))).countP
    fun (rules, draw) => Rule.unmatchedBy rules draw

/-- What is counted when the symbols of the word are replaced. -/
def account (expander : Expander) (word : Word) (stream : RandomStream) : Tally where
  draws := word.countP expander.chooses
  dropped := if expander.policy = .drop then expander.unmatched word stream else 0
  kept := if expander.policy = .keep then expander.unmatched word stream else 0
  terminals := word.countP expander.isTerminal

variable {expander : Expander}

theorem isSome_choice? (t : Token) : (expander.choice? t).isSome = expander.chooses t := by
  cases t with
  | symbol letter =>
      by_cases hcount : 2 ≤ expander.table.count letter
      · simp [choice?, chooses, hcount]
      · simp [choice?, chooses, hcount]
  | assign | direction | push | pop | finish => rfl

theorem length_choices (word : Word) :
    (word.filterMap expander.choice?).length = word.countP expander.chooses := by
  rw [List.length_filterMap_eq_countP]
  simp only [isSome_choice?]

theorem unmatched_append (u v : Word) (stream : RandomStream) :
    expander.unmatched (u ++ v) stream =
      expander.unmatched u stream +
        expander.unmatched v (stream.drawn (u.countP expander.chooses)) := by
  -- there are as many choices as draws, so the two lists are cut at the same place
  have hlength : (u.filterMap expander.choice?).length =
      (stream.units (u.countP expander.chooses)).length := by
    rw [length_choices, RandomStream.units, List.length_map, List.length_range]
  simp only [unmatched, List.filterMap_append, List.countP_append, RandomStream.units_add,
    List.zip_append hlength]

theorem account_append (u v : Word) (stream : RandomStream) :
    expander.account (u ++ v) stream =
      (expander.account u stream).add
        (expander.account v (stream.drawn (u.countP expander.chooses))) := by
  cases hpolicy : expander.policy with
  | drop => simp [account, Tally.add, unmatched_append, hpolicy]
  | keep => simp [account, Tally.add, unmatched_append, hpolicy]

theorem unmatchedBy_iff {rules : List Rule} {draw : Float} :
    Rule.unmatchedBy rules draw = true ↔
      firstReaching Rule.probability draw 0.0 rules = none := by
  rw [firstReaching_eq_none_iff]
  simp [Rule.unmatchedBy, Rule.runningSums]

theorem unmatched_of_none {t : Token} (h : expander.choice? t = none) (stream : RandomStream) :
    expander.unmatched [t] stream = 0 := by
  simp [unmatched, h]

theorem unmatched_of_some {t : Token} {rules : List Rule} (h : expander.choice? t = some rules)
    (stream : RandomStream) :
    expander.unmatched [t] stream =
      if firstReaching Rule.probability stream.unit.1 0.0 rules = none then 1 else 0 := by
  have hchooses : expander.chooses t = true := by
    rw [← isSome_choice?, h]
    rfl
  have hunits : stream.units 1 = [stream.unit.1] := rfl
  simp [unmatched, h, hchooses, hunits, unmatchedBy_iff, List.countP_cons]

theorem account_nil (stream : RandomStream) : expander.account [] stream = {} := by
  simp [account, unmatched]

theorem account_of_choice {letter : Char} (h : 2 ≤ expander.table.count letter)
    (stream : RandomStream) :
    expander.account [.symbol letter] stream =
      (Fate.ofChoice expander.policy (firstReaching Rule.probability stream.unit.1 0.0
        (expander.table.rulesOf letter))).tally := by
  have hchoice : expander.choice? (.symbol letter) = some (expander.table.rulesOf letter) :=
    if_pos h
  have hchooses : expander.chooses (.symbol letter) = true := decide_eq_true h
  have hterminal : expander.isTerminal (.symbol letter) = false := by
    simp only [isTerminal, decide_eq_false_iff_not]
    omega
  have hunmatched := unmatched_of_some hchoice stream
  cases hdraw : firstReaching Rule.probability stream.unit.1 0.0
      (expander.table.rulesOf letter) with
  | some rule =>
      simp [account, hunmatched, hdraw, hchooses, hterminal, Fate.ofChoice, Fate.tally]
  | none =>
      cases hpolicy : expander.policy with
      | drop =>
          simp [account, hunmatched, hdraw, hchooses, hterminal, hpolicy, Fate.ofChoice,
            Fate.tally]
      | keep =>
          simp [account, hunmatched, hdraw, hchooses, hterminal, hpolicy, Fate.ofChoice,
            Fate.tally]

/-- A token is accounted for by what becomes of it. -/
theorem account_token (t : Token) (stream : RandomStream) :
    expander.account [t] stream = (expander.fate t stream).1.tally := by
  cases t with
  | symbol letter =>
      have hcount := expander.table.count_eq_length letter
      by_cases htwo : 2 ≤ expander.table.count letter
      · rw [account_of_choice htwo, fate_of_choice (hcount ▸ htwo)]
      · -- no draw is taken, so that nothing can be unmatched
        have hchoice : expander.choice? (.symbol letter) = none := if_neg htwo
        have hunmatched := unmatched_of_none hchoice stream
        have hchooses : expander.chooses (.symbol letter) = false := decide_eq_false htwo
        rw [fate_symbol_eq]
        match hrules : expander.table.rulesOf letter with
        | [] => simp [account, hunmatched, hchooses, isTerminal, hcount, hrules, Fate.tally]
        | [rule] => simp [account, hunmatched, hchooses, isTerminal, hcount, hrules, Fate.tally]
        | first :: second :: rest => simp [hcount, hrules] at htwo
  | assign | direction | push | pop | finish =>
      rw [account, unmatched_of_none rfl]
      simp [chooses, isTerminal, fate, Token.letter?, Fate.tally]

/-- A pass counts what its word gives to count. -/
theorem tally_rewrite (word : Word) (stream : RandomStream) :
    (expander.rewrite word stream).2.2 = expander.account word stream := by
  induction word generalizing stream with
  | nil => rw [account_nil, rewrite]
  | cons t rest ih =>
      -- the rest takes its draws from where the first token leaves the stream
      have hnext : (expander.fate t stream).2 = stream.drawn ([t].countP expander.chooses) := by
        rw [(expander.draws_fate t stream).1, List.countP_singleton]
      show (expander.fate t stream).1.tally.add
        (expander.rewrite rest (expander.fate t stream).2).2.2 = _
      rw [ih, hnext, ← account_token, ← account_append, List.singleton_append]

/-! ## Passes -/

/-- The words that so many passes begin with. -/
def inputs (expander : Expander) (n : Nat) (word : Word) (stream : RandomStream) : List Word :=
  (List.range n).map fun i => (expander.rewrites i word stream).1

theorem inputs_succ (n : Nat) (word : Word) (stream : RandomStream) :
    expander.inputs (n + 1) word stream =
      word :: expander.inputs n (expander.rewrite word stream).1
        (expander.rewrite word stream).2.1 := by
  unfold inputs
  rw [List.range_succ_eq_map, List.map_cons, List.map_map]
  rfl

/-- Passes enter the lengths of the words they end with, and count what the words they begin with
give to count. -/
theorem iterate_account {n : Nat} {word built : Word} {progress after : Progress}
    (h : expander.iterate n word progress = (.ok built, after)) :
    after.metrics.lengths = progress.metrics.lengths ++
        (List.range n).map (fun i => expander.lengthAfter (i + 1) word progress.stream) ∧
      after.metrics.tally = progress.metrics.tally.add
        (expander.account (expander.inputs n word progress.stream).flatten progress.stream) ∧
      after.stream = progress.stream.drawn
        ((expander.inputs n word progress.stream).flatten.countP expander.chooses) := by
  induction n generalizing word progress with
  | zero =>
      cases h
      exact ⟨(List.append_nil _).symm, by simp [inputs, account_nil, Tally.add], rfl⟩
  | succ n ih =>
      unfold iterate at h
      split at h
      · cases h
      · next middle between hstep =>
        obtain ⟨hmiddle, hstream, hmetrics⟩ := step_eq_ok hstep
        obtain ⟨hlengths, htally, hafter⟩ := ih h
        dsimp only at hlengths htally hafter
        -- the passes that follow begin with the word and the stream that the first one leaves
        rw [hstream, hmiddle] at hlengths htally hafter
        rw [inputs_succ, List.flatten_cons, account_append, List.countP_append,
          RandomStream.drawn_add, ← (expander.draws_rewrite word progress.stream).1]
        refine ⟨?_, ?_, hafter⟩
        · rw [hlengths, hmetrics, List.range_succ_eq_map, List.map_cons, List.map_map]
          exact (List.append_cons ..).symm
        · rw [htally, ← Tally.add_assoc, ← tally_rewrite word, hmetrics]
          rfl

theorem finalLength_of_getLast? {metrics : Metrics} {length : Nat}
    (h : metrics.lengths.getLast? = some length) : metrics.finalLength = length := by
  rw [Metrics.finalLength, h, Option.getD_some]

/-- An expansion that succeeds leaves an account of all its passes and of nothing else, whatever
the progress that it is begun with: the length of the word before each pass and after the last one;
a draw for each symbol with a choice of rules, by as many of which the stream has moved on; as many
symbols left out or kept as draws matched no rule, according to the policy; and the symbols without
rules. -/
theorem expand_account {n : Nat} {start built : Word} {progress after : Progress}
    (h : expander.expand n start progress = (.ok built, after)) :
    let word i := (expander.rewrites i start progress.stream).1
    let inputs := (List.range n).map word
    let tally := after.metrics.tally
    (∀ i ≤ n, (expander.expand i start progress).1 = .ok (word i)) ∧
    (after.metrics.lengths = (List.range (n + 1)).map (fun i => (word i).length) ∧
      after.metrics.lengths.length = n + 1 ∧ after.metrics.lengths.head? = some start.length ∧
      after.metrics.iterations = n ∧ after.metrics.finalLength = built.length) ∧
    (tally.draws = (inputs.map fun input => input.countP expander.chooses).sum ∧
      after.stream =
        (fun stream : RandomStream => stream.next.2)^[tally.draws] progress.stream) ∧
    (tally.dropped + tally.kept = expander.unmatched inputs.flatten progress.stream ∧
      (expander.policy = .drop → tally.kept = 0) ∧
      (expander.policy = .keep → tally.dropped = 0)) ∧
    tally.terminals = (inputs.map fun input => input.countP expander.isTerminal).sum := by
  intro word inputs tally
  have hok : (expander.expand n start progress).1 = .ok built := by rw [h]
  obtain ⟨hn, hfits, hbuilt⟩ := expand_eq_ok_iff.1 hok
  have hbefore : ∀ i ≤ n, (expander.expand i start progress).1 = .ok (word i) := by
    intro i hi
    refine expand_eq_ok_iff.2 ⟨Nat.le_trans hi hn, ?_, rfl⟩
    intro k hk
    exact hfits k (Nat.le_trans hk hi)
  have hstart : start.length ≤ expander.limits.wordLength := hfits 0 (Nat.zero_le n)
  rw [expand_of_le hn hstart] at h
  obtain ⟨hlengths, htally, hstream⟩ := iterate_account h
  have htally : tally = expander.account inputs.flatten progress.stream :=
    htally.trans (Tally.empty_add _)
  have hlengths : after.metrics.lengths = (List.range (n + 1)).map fun i => (word i).length := by
    rw [hlengths, List.range_succ_eq_map, List.map_cons, List.map_map]
    rfl
  have hdraws : tally.draws = inputs.flatten.countP expander.chooses := by rw [htally, account]
  have hterminals : tally.terminals = inputs.flatten.countP expander.isTerminal := by
    rw [htally, account]
  refine ⟨hbefore, ⟨hlengths, ?_, ?_, ?_, ?_⟩, ⟨?_, ?_⟩, ⟨?_, ?_, ?_⟩, ?_⟩
  · simp [hlengths]
  · rw [hlengths, List.range_succ_eq_map]
    rfl
  · simp [Metrics.iterations, hlengths]
  · apply finalLength_of_getLast?
    rw [hlengths, List.range_succ, hbuilt]
    simp [word]
  · rw [hdraws, List.countP_flatten]
  · rw [hdraws]
    exact hstream
  · rw [htally]
    cases hpolicy : expander.policy <;> simp [account, hpolicy]
  · intro hdrop
    simp [htally, account, hdrop]
  · intro hkeep
    simp [htally, account, hkeep]
  · rw [hterminals, List.countP_flatten]

/-- Two passes over `FXF`, begun under the account of other work. In the first pass the draw of one
`F` matches no rule, so that `F` goes. -/
theorem expand_account_branching :
    ∃ built after,
      branching.expand 2 [.symbol 'F', .symbol 'X', .symbol 'F']
        { stream := .ofSeed 1, metrics := ⟨[7, 9], ⟨4, 3, 2, 1⟩⟩ } = (.ok built, after) ∧
      after.metrics = ⟨[3, 3, 9], ⟨4, 1, 0, 2⟩⟩ := by
  have hsome : (branching.expand 2 [.symbol 'F', .symbol 'X', .symbol 'F']
      { stream := .ofSeed 1, metrics := ⟨[7, 9], ⟨4, 3, 2, 1⟩⟩ }).1.toOption.isSome = true := by
    decide +kernel
  rcases h : branching.expand 2 [.symbol 'F', .symbol 'X', .symbol 'F']
    { stream := .ofSeed 1, metrics := ⟨[7, 9], ⟨4, 3, 2, 1⟩⟩ } with
    ⟨error | built, stream, lengths, draws, dropped, kept, terminals⟩
  · rw [h] at hsome
    cases hsome
  obtain ⟨-, ⟨hlengths, -⟩, ⟨hdraws, -⟩, ⟨hunmatched, hkept, -⟩, hterminals⟩ := expand_account h
  refine ⟨built, _, rfl, ?_⟩
  obtain rfl : kept = 0 := hkept rfl
  obtain rfl : lengths = [3, 3, 9] := hlengths.trans (by decide +kernel)
  obtain rfl : draws = 4 := hdraws.trans (by decide +kernel)
  obtain rfl : dropped = 1 := hunmatched.trans (by decide +kernel)
  obtain rfl : terminals = 2 := hterminals.trans (by decide +kernel)
  rfl

end Expander

end Lindenmayer
