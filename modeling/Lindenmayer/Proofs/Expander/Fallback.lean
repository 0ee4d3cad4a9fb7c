import Lindenmayer.Proofs.Double.Sums
import Lindenmayer.Proofs.Expander.Choosing
import Lindenmayer.Proofs.Expander.Resuming
import Lindenmayer.Proofs.Expander.Tracking
import Lindenmayer.Proofs.Random.Unit
import Lindenmayer.Proofs.Rule.Faults

/-!
# Policies as fallback rules

What the policy says about draws that match no rule can as well be said by one rule more for each
symbol with a choice, of probability one and behind the others.

* No draw is beyond that rule: the sum before it is not negative, and with one added it is not below
  any draw (`firstReaching_fallback`).
* So the table with these rules and the one with the policy keep step, draw for draw
  (`tracks_withFallback`).
* The rules can be added to the table one after the other where there is room for them
  (`insert_fallbacks`).
-/

namespace Lindenmayer

/-- The rule that says of a symbol what the policy says. -/
def NoMatchPolicy.fallback (symbol : Char) : NoMatchPolicy → Rule
  | .drop => ⟨symbol, [], 1.0⟩
  | .keep => ⟨symbol, [.symbol symbol], 1.0⟩

/-- The rules of a symbol and, if there are two or more, its fallback rule behind them. -/
def Alternatives.withFallback (policy : NoMatchPolicy) (symbol : Char)
    (alternatives : Alternatives) : Alternatives :=
  if 2 ≤ alternatives.toList.length then alternatives.push (policy.fallback symbol)
  else alternatives

namespace ProductionTable

/-- The table with a fallback rule for each symbol that has two rules or more. -/
def withFallback (table : ProductionTable) (policy : NoMatchPolicy) : ProductionTable where
  entries := table.entries.map fun (symbol, alternatives) =>
    (symbol, alternatives.withFallback policy symbol)
  sorted := List.pairwise_map.2 table.sorted

/-- Symbols with two rules or more have room for another, and probabilities in `[0, 1]`. -/
structure Completable (table : ProductionTable) : Prop where
  room : ∀ symbol, 2 ≤ table.count symbol → table.count symbol < Limits.rulesPerSymbol
  probability : ∀ symbol, 2 ≤ table.count symbol → ∀ rule ∈ table.rulesOf symbol,
    0.0 ≤ rule.probability ∧ rule.probability ≤ 1.0

variable {table : ProductionTable}

theorem completable_of_entries
    (h : ∀ entry ∈ table.entries, entry.2.toList.length < Limits.rulesPerSymbol ∧
      ∀ rule ∈ entry.2.toList, 0.0 ≤ rule.probability ∧ rule.probability ≤ 1.0) :
    table.Completable := by
  have hrules : ∀ symbol, (table.rulesOf symbol).length < Limits.rulesPerSymbol ∧
      ∀ rule ∈ table.rulesOf symbol, 0.0 ≤ rule.probability ∧ rule.probability ≤ 1.0 := by
    intro symbol
    cases hget : table.get? symbol with
    | none =>
        rw [get?_eq_none_iff.1 hget]
        exact ⟨by decide, fun _ hrule => absurd hrule List.not_mem_nil⟩
    | some alternatives =>
        rw [rulesOf_of_get? hget]
        exact h _ (mem_entries_of_get? hget)
  constructor
  · intro symbol _
    rw [count_eq_length]
    exact (hrules symbol).1
  · intro symbol _
    exact (hrules symbol).2

theorem lookup_map (f : Char → Alternatives → Alternatives) (entries : List (Char × Alternatives))
    (symbol : Char) :
    (entries.map fun (key, alternatives) => (key, f key alternatives)).lookup symbol =
      (entries.lookup symbol).map (f symbol) := by
  induction entries with
  | nil => rfl
  | cons head rest ih =>
      obtain ⟨key, alternatives⟩ := head
      rw [List.map_cons, List.lookup_cons, List.lookup_cons, ih]
      cases hkey : symbol == key with
      | true =>
          obtain rfl : symbol = key := by simpa using hkey
          rfl
      | false => rfl

theorem rulesOf_withFallback (table : ProductionTable) (policy : NoMatchPolicy) (symbol : Char) :
    (table.withFallback policy).rulesOf symbol =
      if 2 ≤ (table.rulesOf symbol).length then table.rulesOf symbol ++ [policy.fallback symbol]
      else table.rulesOf symbol := by
  have hlookup : (table.withFallback policy).get? symbol =
      (table.get? symbol).map (Alternatives.withFallback policy symbol) :=
    lookup_map (Alternatives.withFallback policy) table.entries symbol
  unfold rulesOf
  rw [hlookup]
  cases table.get? symbol with
  | none => rfl
  | some alternatives =>
      show (alternatives.withFallback policy symbol).toList =
        if 2 ≤ alternatives.toList.length then alternatives.toList ++ [policy.fallback symbol]
        else alternatives.toList
      unfold Alternatives.withFallback
      split
      · exact Alternatives.toList_push ..
      · rfl

/-- A rule for each of the symbols comes in behind those that the symbol has. -/
theorem exists_insert (table : ProductionTable) {rule : Char → Rule}
    (hleft : ∀ symbol, (rule symbol).left = symbol) {symbols : List Char} (hnodup : symbols.Nodup)
    (hroom : ∀ symbol ∈ symbols, (table.rulesOf symbol).length < Limits.rulesPerSymbol) :
    ∃ after, symbols.foldlM (fun built symbol => built.insert (rule symbol)) table = .ok after ∧
      ∀ symbol, after.rulesOf symbol =
        if symbol ∈ symbols then table.rulesOf symbol ++ [rule symbol]
        else table.rulesOf symbol := by
  induction symbols generalizing table with
  | nil => exact ⟨table, rfl, fun _ => rfl⟩
  | cons head rest ih =>
      obtain ⟨hhead, hrest⟩ := List.nodup_cons.1 hnodup
      have hfirst := hroom head List.mem_cons_self
      rw [← hleft head] at hfirst
      obtain ⟨middle, hmiddle⟩ := insert_of_room hfirst
      have hrules := rulesOf_insert hmiddle
      rw [hleft] at hrules
      -- the symbols that are still to come are others, and have the room that they had
      have hroom' : ∀ symbol ∈ rest,
          (middle.rulesOf symbol).length < Limits.rulesPerSymbol := by
        intro symbol hsymbol
        have hother : symbol ≠ head := fun heq => hhead (heq ▸ hsymbol)
        rw [hrules, if_neg hother]
        exact hroom symbol (List.mem_cons_of_mem _ hsymbol)
      obtain ⟨after, hafter, hlast⟩ := ih middle hrest hroom'
      refine ⟨after, ?_, ?_⟩
      · rw [List.foldlM_cons, hmiddle, ok_bind, hafter]
      · intro symbol
        rw [hlast, hrules]
        by_cases hsame : symbol = head
        · subst hsame
          simp [hhead]
        · simp [hsame]

theorem mem_symbols_of_choice (table : ProductionTable) (symbol : Char) :
    symbol ∈ (table.symbols.filter fun symbol => 2 ≤ table.count symbol) ↔
      2 ≤ (table.rulesOf symbol).length := by
  rw [List.mem_filter, decide_eq_true_iff, count_eq_length, and_iff_right_iff_imp]
  intro htwo
  cases hget : table.get? symbol with
  | none => simp [get?_eq_none_iff.1 hget] at htwo
  | some alternatives => exact List.mem_map_of_mem (mem_entries_of_get? hget)

/-- Where there is room for them, the fallback rules can be added one after the other. -/
theorem insert_fallbacks (table : ProductionTable) (policy : NoMatchPolicy)
    (hroom : ∀ symbol, 2 ≤ table.count symbol → table.count symbol < Limits.rulesPerSymbol) :
    (table.symbols.filter fun symbol => 2 ≤ table.count symbol).foldlM
        (fun built symbol => built.insert (policy.fallback symbol)) table =
      .ok (table.withFallback policy) := by
  have hnodup : table.symbols.Nodup :=
    List.pairwise_map.2 (table.sorted.imp fun hlt => Char.ne_of_lt hlt)
  have hleft : ∀ symbol, (policy.fallback symbol).left = symbol := by
    intro symbol
    cases policy <;> rfl
  have hspare : ∀ symbol ∈ table.symbols.filter fun symbol => 2 ≤ table.count symbol,
      (table.rulesOf symbol).length < Limits.rulesPerSymbol := by
    intro symbol hsymbol
    rw [mem_symbols_of_choice, ← count_eq_length] at hsymbol
    rw [← count_eq_length]
    exact hroom symbol hsymbol
  obtain ⟨after, hafter, hrules⟩ := table.exists_insert hleft (hnodup.filter _) hspare
  rw [hafter]
  congr 1
  apply eq_of_rulesOf
  intro symbol
  rw [hrules, rulesOf_withFallback]
  simp only [mem_symbols_of_choice]

end ProductionTable

namespace Rule

/-- A draw chooses the fallback rule where it would choose none. -/
theorem firstReaching_fallback {rules : List Rule}
    (h : ∀ rule ∈ rules, 0.0 ≤ rule.probability) (policy : NoMatchPolicy) (symbol : Char)
    (stream : RandomStream) :
    firstReaching Rule.probability stream.unit.1 0.0 (rules ++ [policy.fallback symbol]) =
      some ((firstReaching Rule.probability stream.unit.1 0.0 rules).getD
        (policy.fallback symbol)) := by
  have hzero : (0.0 : Float) ≤ 0.0 := by decide +kernel
  have hone : (0.0 : Float) ≤ 1.0 := by decide +kernel
  have hsum := Double.nonneg_foldl (List.forall_mem_map.2 h) hzero
  -- with one added, the sum before the fallback rule reaches one, and no draw is above that
  have hreached : stream.unit.1 ≤ (rules.map Rule.probability).foldl (· + ·) 0.0 + 1.0 :=
    Double.le_trans stream.unit_le_one (Double.le_add hsum hone).2
  have hprobability : (policy.fallback symbol).probability = 1.0 := by cases policy <;> rfl
  rw [firstReaching_append]
  cases firstReaching Rule.probability stream.unit.1 0.0 rules with
  | some rule => rfl
  | none => simp [firstReaching, hprobability, hreached]

end Rule

namespace Expander

/-- A token comes to the same with the fallback rules as with the policy. -/
theorem fate_withFallback {table : ProductionTable} (h : table.Completable)
    (policy other : NoMatchPolicy) (limits : ExpansionLimits) (t : Token) (stream : RandomStream) :
    let completed := fate ⟨table.withFallback policy, other, limits⟩ t stream
    let plain := fate ⟨table, policy, limits⟩ t stream
    completed.1.output t = plain.1.output t ∧ completed.2 = plain.2 ∧
      completed.1.tally.draws = plain.1.tally.draws ∧
      completed.1.tally.terminals = plain.1.tally.terminals ∧
      completed.1.tally.dropped = 0 ∧ completed.1.tally.kept = 0 := by
  cases t with
  | symbol letter =>
      have hrules := table.rulesOf_withFallback policy letter
      by_cases htwo : 2 ≤ (table.rulesOf letter).length
      · rw [if_pos htwo] at hrules
        have hmore : 2 ≤ ((table.withFallback policy).rulesOf letter).length := by
          rw [hrules, List.length_append]
          omega
        have hnonneg : ∀ rule ∈ table.rulesOf letter, 0.0 ≤ rule.probability := by
          intro rule hrule
          rw [← ProductionTable.count_eq_length] at htwo
          exact (h.probability letter htwo rule hrule).1
        have hchoice := Rule.firstReaching_fallback hnonneg policy letter stream
        rw [fate_of_choice hmore, fate_of_choice htwo, hrules, hchoice]
        dsimp only
        cases firstReaching Rule.probability stream.unit.1 0.0 (table.rulesOf letter) with
        | some rule => exact ⟨rfl, rfl, rfl, rfl, rfl, rfl⟩
        | none => cases policy <;> exact ⟨rfl, rfl, rfl, rfl, rfl, rfl⟩
      · -- without a choice nothing is added, and the policy is not asked
        rw [if_neg htwo] at hrules
        rw [fate_symbol_eq, fate_symbol_eq, hrules]
        match hfew : table.rulesOf letter with
        | [] => exact ⟨rfl, rfl, rfl, rfl, rfl, rfl⟩
        | [rule] => exact ⟨rfl, rfl, rfl, rfl, rfl, rfl⟩
        | first :: second :: rest => simp [hfew] at htwo
  | assign | direction | push | pop | finish => exact ⟨rfl, rfl, rfl, rfl, rfl, rfl⟩

theorem tracks_withFallback {table : ProductionTable} (h : table.Completable)
    (policy other : NoMatchPolicy) (limits : ExpansionLimits) :
    Tracks Eq
      (fun a b => a.draws = b.draws ∧ a.terminals = b.terminals ∧ a.dropped = 0 ∧ a.kept = 0)
      ⟨table.withFallback policy, other, limits⟩ ⟨table, policy, limits⟩ where
  limits := rfl
  output t s s' hs := by
    subst hs
    exact (fate_withFallback h policy other limits t s).1
  stream t s s' hs := by
    subst hs
    exact (fate_withFallback h policy other limits t s).2.1
  tally t s s' hs := by
    subst hs
    exact (fate_withFallback h policy other limits t s).2.2
  empty := ⟨rfl, rfl, rfl, rfl⟩
  add a a' b b' ha hb := by
    simp [Tally.add, ha, hb]

/-- A policy is as good as a fallback rule for each symbol with a choice: `X:=X` for `keep`, `X:=`
for `drop`, of probability one. The expansion under the policy and that with the rules, under any
policy, come to the same word or error, with the same lengths and draws; and with the rules no draw
is unmatched. The rules can be added to the table in the usual way. -/
theorem expand_withFallback {table : ProductionTable} (h : table.Completable) :
    (∀ policy : NoMatchPolicy,
      (table.symbols.filter fun symbol => 2 ≤ table.count symbol).foldlM
          (fun built symbol => built.insert (policy.fallback symbol)) table =
        .ok (table.withFallback policy)) ∧
    ∀ (policy other : NoMatchPolicy) (limits : ExpansionLimits) (n : Nat) (start : Word)
      (progress : Progress),
      let plain := expand ⟨table, policy, limits⟩ n start progress
      let completed := expand ⟨table.withFallback policy, other, limits⟩ n start progress
      completed.1 = plain.1 ∧
        completed.2.metrics.lengths = plain.2.metrics.lengths ∧
        completed.2.metrics.tally.draws = plain.2.metrics.tally.draws ∧
        completed.2.metrics.tally.terminals = plain.2.metrics.tally.terminals ∧
        completed.2.stream = plain.2.stream ∧
        completed.2.metrics.tally.dropped = 0 ∧ completed.2.metrics.tally.kept = 0 := by
  refine ⟨fun policy => table.insert_fallbacks policy h.room, ?_⟩
  intro policy other limits n start progress plain completed
  have htracks := tracks_withFallback h policy other limits
  obtain ⟨hout, hstream, hlengths, hdraws, hterminals, hdropped, hkept⟩ :=
    htracks.expand n start progress progress rfl
  exact ⟨hout, hlengths, hdraws, hterminals, hstream, hdropped, hkept⟩

/-- A draw matches none of the two rules, so its symbol is kept; under a policy that would drop it,
the draw chooses the third rule, which says the same. -/
theorem expand_withFallback_branching :
    ∃ built,
      (expand ⟨branching.table, .keep, {}⟩ 2 [.symbol 'F', .symbol 'F']
        { stream := .ofSeed 1 }).1 = .ok built ∧
      (expand ⟨branching.table, .keep, {}⟩ 2 [.symbol 'F', .symbol 'F']
        { stream := .ofSeed 1 }).2.metrics.tally.kept = 1 ∧
      (expand ⟨branching.table.withFallback .keep, .drop, {}⟩ 2 [.symbol 'F', .symbol 'F']
        { stream := .ofSeed 1 }).1 = .ok built ∧
      (expand ⟨branching.table.withFallback .keep, .drop, {}⟩ 2 [.symbol 'F', .symbol 'F']
        { stream := .ofSeed 1 }).2.metrics.tally.kept = 0 := by
  have htable : branching.table.Completable :=
    ProductionTable.completable_of_entries (by decide +kernel)
  obtain ⟨-, hruns⟩ := expand_withFallback htable
  obtain ⟨hout, -, -, -, -, -, hkept⟩ := hruns .keep .drop {} 2 [.symbol 'F', .symbol 'F']
    { stream := .ofSeed 1 }
  have hsome : (expand ⟨branching.table, .keep, {}⟩ 2 [.symbol 'F', .symbol 'F']
      { stream := .ofSeed 1 }).1.toOption.isSome = true := by decide +kernel
  rcases hbuilt : (expand ⟨branching.table, .keep, {}⟩ 2 [.symbol 'F', .symbol 'F']
    { stream := .ofSeed 1 }).1 with error | built
  · rw [hbuilt] at hsome
    cases hsome
  · exact ⟨built, rfl, by decide +kernel, hout.trans hbuilt, hkept⟩

end Expander

end Lindenmayer
