import Lindenmayer.Proofs.Outcome
import Lindenmayer.Rule.Set

/-!
# Properties of all rules of a table

Rules come into a table by being read from texts. What holds of every rule that can be read
holds of every rule of a compiled table (`RuleSet.all_compile`).
-/

namespace Lindenmayer

namespace ProductionTable

/-- Every rule of the table has the property. -/
def All (P : Rule → Prop) (table : ProductionTable) : Prop :=
  ∀ entry ∈ table.entries, ∀ rule ∈ entry.2.toList, P rule

variable {P : Rule → Prop} {table after : ProductionTable} {rule : Rule}

/-- Adding a rule brings in that rule and no other. -/
theorem mem_toList_of_mem_addTo {entries : List (Char × Alternatives)}
    {entry : Char × Alternatives} (hentry : entry ∈ addTo rule entries) {r : Rule}
    (hr : r ∈ entry.2.toList) : r = rule ∨ ∃ old ∈ entries, r ∈ old.2.toList := by
  induction entries with
  | nil =>
      simp only [addTo, List.mem_singleton] at hentry
      subst hentry
      exact .inl (List.mem_singleton.1 hr)
  | cons head rest ih =>
      obtain ⟨symbol, alternatives⟩ := head
      unfold addTo at hentry
      split at hentry
      · rcases List.mem_cons.1 hentry with rfl | hold
        · exact .inl (List.mem_singleton.1 hr)
        · exact .inr ⟨entry, hold, hr⟩
      split at hentry
      · rcases List.mem_cons.1 hentry with rfl | hold
        · rw [Alternatives.toList_push, List.mem_append, List.mem_singleton] at hr
          rcases hr with hr | rfl
          · exact .inr ⟨_, List.mem_cons_self, hr⟩
          · exact .inl rfl
        · exact .inr ⟨entry, List.mem_cons_of_mem _ hold, hr⟩
      · rcases List.mem_cons.1 hentry with rfl | hold
        · exact .inr ⟨_, List.mem_cons_self, hr⟩
        · rcases ih hold with same | ⟨old, hmem, hold⟩
          · exact .inl same
          · exact .inr ⟨old, List.mem_cons_of_mem _ hmem, hold⟩

theorem All.insert (h : table.All P) (hrule : P rule) (hinsert : table.insert rule = .ok after) :
    after.All P := by
  unfold ProductionTable.insert at hinsert
  split at hinsert <;> cases hinsert
  intro entry hentry r hr
  rcases mem_toList_of_mem_addTo hentry hr with rfl | ⟨old, hold, hr⟩
  · exact hrule
  · exact h old hold r hr

theorem mem_entries_of_get? {symbol : Char} {alternatives : Alternatives}
    (hget : table.get? symbol = some alternatives) : (symbol, alternatives) ∈ table.entries := by
  obtain ⟨before, behind, hentries, -⟩ := List.lookup_eq_some_iff.1 hget
  rw [hentries]
  simp

/-- The alternatives of a symbol are rules of the table. -/
theorem All.get? (h : table.All P) {symbol : Char} {alternatives : Alternatives}
    (hget : table.get? symbol = some alternatives) : ∀ r ∈ alternatives.toList, P r :=
  h _ (mem_entries_of_get? hget)

end ProductionTable

namespace RuleSet

variable {P : Rule → Prop} {alphabet : Alphabet}

/-- Judging entries brings in rules that were read, and no others. -/
theorem all_compileFrom
    (hparse : ∀ text p rule, Rule.parse alphabet text p = .ok rule → P rule)
    (entries : List RuleEntry) (index : Nat) {table : ProductionTable} (h : table.All P) :
    (compileFrom alphabet index table entries).table.All P := by
  induction entries generalizing index table with
  | nil => exact h
  | cons entry rest ih =>
      unfold compileFrom
      split
      · next after hjudge =>
        obtain ⟨rule, hrule, hinsert⟩ := bind_eq_ok_iff.1 hjudge
        exact ih (index + 1) (h.insert (hparse _ _ _ hrule) hinsert)
      · exact ih (index + 1) h

/-- What holds of every rule that can be read holds of every rule of a compiled table. -/
theorem all_compile (rules : RuleSet)
    (hparse : ∀ text p rule, Rule.parse rules.alphabet text p = .ok rule → P rule) :
    rules.compile.table.All P :=
  all_compileFrom hparse _ 0 (fun _ hentry => absurd hentry List.not_mem_nil)

end RuleSet

end Lindenmayer
