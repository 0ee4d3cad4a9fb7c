import Lindenmayer.Expander
import Lindenmayer.Proofs.Rule.Contents

/-!
# Choosing among rules

A draw chooses the first rule whose running sum of probabilities reaches it.

* It chooses none exactly if it is above all running sums (`firstReaching_eq_none_iff`).
* Rules that stand further behind are only looked at by a draw that the ones before left unmatched
  (`firstReaching_append`).
* The fate of a symbol is settled by its rules in the table, the policy and the draw, and by
  nothing else (`fate_symbol_eq`).
-/

namespace Lindenmayer

theorem scanl_eq_cons {α β : Type} (f : β → α → β) (first : β) (items : List α) :
    items.scanl f first = first :: (items.scanl f first).tail := by
  cases items <;> simp

section FirstReaching

variable {α β : Type} [Add α] [LE α] [DecidableLE α] {weight : β → α} {draw sum : α}
  {items : List β}

theorem firstReaching_eq_none_iff :
    firstReaching weight draw sum items = none ↔
      ∀ total ∈ ((items.map weight).scanl (· + ·) sum).tail, ¬ draw ≤ total := by
  induction items generalizing sum with
  | nil => simp [firstReaching]
  | cons head rest ih =>
      -- the sums behind the first item are those of the rest, begun with the weight of the first
      rw [List.map_cons, List.scanl_cons, List.tail_cons, scanl_eq_cons, List.forall_mem_cons,
        ← ih]
      by_cases hreached : draw ≤ sum + weight head
      · simp [firstReaching, hreached]
      · simp [firstReaching, hreached]

theorem firstReaching_append (behind : List β) :
    firstReaching weight draw sum (items ++ behind) =
      (firstReaching weight draw sum items).or
        (firstReaching weight draw ((items.map weight).foldl (· + ·) sum) behind) := by
  induction items generalizing sum with
  | nil => rfl
  | cons head rest ih =>
      by_cases hreached : draw ≤ sum + weight head
      · simp [firstReaching, hreached]
      · simp [firstReaching, hreached, ih]

end FirstReaching

/-- The sums of the probabilities of the rules from the left, one for each rule. -/
def Rule.runningSums (rules : List Rule) : List Float :=
  ((rules.map Rule.probability).scanl (· + ·) 0.0).tail

/-- What a draw comes to: the rule that it chooses or, if there is none, what the policy says. -/
def Fate.ofChoice (policy : NoMatchPolicy) : Option Rule → Fate
  | some rule => .chosen rule
  | none =>
      match policy with
      | .drop => .dropped
      | .keep => .kept

theorem Fate.draws_ofChoice (policy : NoMatchPolicy) (choice : Option Rule) :
    (Fate.ofChoice policy choice).tally.draws = 1 := by
  cases choice with
  | some rule => rfl
  | none => cases policy <;> rfl

namespace Expander

/-- The rules of a symbol settle what becomes of it, with the draw if there are several. -/
theorem fate_symbol_eq (expander : Expander) (letter : Char) (stream : RandomStream) :
    expander.fate (.symbol letter) stream =
      match expander.table.rulesOf letter with
      | [] => (.terminal, stream)
      | [rule] => (.replaced rule, stream)
      | rules =>
          (.ofChoice expander.policy
            (firstReaching Rule.probability stream.unit.1 0.0 rules), stream.unit.2) := by
  cases hget : expander.table.get? letter with
  | none =>
      rw [ProductionTable.get?_eq_none_iff.1 hget]
      simp [fate, Token.letter?, hget]
  | some alternatives =>
      rw [ProductionTable.rulesOf_of_get? hget]
      obtain ⟨rule, others⟩ := alternatives
      cases others with
      | nil => simp [fate, Token.letter?, hget, Alternatives.toList]
      | cons other others =>
          simp only [fate, Token.letter?, hget, Alternatives.choose, Alternatives.toList]
          cases firstReaching Rule.probability stream.unit.1 0.0 (rule :: other :: others) with
          | some chosen => rfl
          | none => cases expander.policy <;> rfl

theorem fate_of_choice {expander : Expander} {letter : Char}
    (h : 2 ≤ (expander.table.rulesOf letter).length) (stream : RandomStream) :
    expander.fate (.symbol letter) stream =
      (.ofChoice expander.policy (firstReaching Rule.probability stream.unit.1 0.0
        (expander.table.rulesOf letter)), stream.unit.2) := by
  rw [fate_symbol_eq]
  match hrules : expander.table.rulesOf letter with
  | [] => simp [hrules] at h
  | [rule] => simp [hrules] at h
  | first :: second :: rest => rfl

end Expander

end Lindenmayer
