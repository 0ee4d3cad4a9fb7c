import Lindenmayer.Proofs.Rule.Compiling
import Lindenmayer.Proofs.Rule.Table

/-!
# The fault of an entry

What is wrong with an entry can be told from the entries before it, without a table:

* a table that was offered rules one after the other has taken the first of each symbol, as many
  as there is room for (`ProductionTable.Collects`), and is determined by them
  (`ProductionTable.eq_of_rulesOf`);
* so the fault of an entry is told by its own text and probability and by the number of rules for
  its symbol before it (`RuleSet.fault?`), and its report tells just that (`reports_compile`);
* entries with a fault may as well be left out (`compileFrom_accepted`).
-/

namespace Lindenmayer

theorem Alternatives.toList_injective : Function.Injective Alternatives.toList := by
  rintro ⟨first, others⟩ ⟨first', others'⟩ h
  obtain ⟨rfl, rfl⟩ := List.cons.inj h
  rfl

namespace ProductionTable

variable {table after : ProductionTable} {symbol : Char} {rule : Rule} {rules : List Rule}

/-! ## What makes a table -/

theorem mem_entries_iff {alternatives : Alternatives} :
    (symbol, alternatives) ∈ table.entries ↔ table.get? symbol = some alternatives := by
  constructor
  · intro hmem
    obtain ⟨before, behind, hentries⟩ := List.append_of_mem hmem
    have hsorted := table.sorted
    rw [hentries, List.pairwise_append] at hsorted
    obtain ⟨-, -, hbefore⟩ := hsorted
    rw [get?, hentries, List.lookup_eq_some_iff]
    refine ⟨before, behind, rfl, ?_⟩
    intro entry hentry
    have hlt : entry.1 < symbol := hbefore entry hentry _ List.mem_cons_self
    simpa using (Char.ne_of_lt hlt).symm
  · exact mem_entries_of_get?

/-- A table is determined by the rules of its symbols. -/
theorem eq_of_rulesOf (h : ∀ symbol, table.rulesOf symbol = after.rulesOf symbol) :
    table = after := by
  have hget : ∀ symbol, table.get? symbol = after.get? symbol := by
    intro symbol
    apply Option.map_injective Alternatives.toList_injective
    rw [map_toList_get?, map_toList_get?, h]
  have hmem : ∀ entry, entry ∈ table.entries ↔ entry ∈ after.entries := by
    rintro ⟨symbol, alternatives⟩
    rw [mem_entries_iff, mem_entries_iff, hget]
  have hnodup : ∀ table : ProductionTable, table.entries.Nodup := by
    intro table
    apply table.sorted.imp
    intro entry other hlt heq
    exact Char.ne_of_lt hlt (congrArg Prod.fst heq)
  -- Both lists are in the order of the symbols and have the same entries.
  have hperm := (List.perm_ext_iff_of_nodup (hnodup table) (hnodup after)).2 hmem
  have hentries : table.entries = after.entries := by
    apply hperm.eq_of_pairwise _ table.sorted after.sorted
    intro entry other _ _ hlt hgt
    exact absurd hgt (Char.lt_asymm hlt)
  cases table
  cases after
  cases hentries
  rfl

/-! ## Offering rules -/

/-- The rules were offered one after the other, and each was taken while there was room. -/
def Collects (table : ProductionTable) (rules : List Rule) : Prop :=
  ∀ symbol, table.rulesOf symbol =
    (rules.filter fun rule => rule.left = symbol).take Limits.rulesPerSymbol

theorem collects_empty : empty.Collects [] := by
  intro symbol
  rfl

theorem filter_concat_of_left (rules : List Rule) (rule : Rule) :
    (rules ++ [rule]).filter (fun other => other.left = rule.left) =
      rules.filter (fun other => other.left = rule.left) ++ [rule] := by
  simp

theorem filter_concat_of_other (rules : List Rule) (hother : rule.left ≠ symbol) :
    (rules ++ [rule]).filter (fun other => other.left = symbol) =
      rules.filter fun other => other.left = symbol := by
  simp [hother]

theorem Collects.eq (h : table.Collects rules) (h' : after.Collects rules) : table = after := by
  apply eq_of_rulesOf
  intro symbol
  rw [h symbol, h' symbol]

/-- There is room for a rule until the symbol has had as many offers as it may have rules. -/
theorem Collects.room_iff (h : table.Collects rules) (symbol : Char) :
    (table.rulesOf symbol).length < Limits.rulesPerSymbol ↔
      (rules.countP fun rule => rule.left = symbol) < Limits.rulesPerSymbol := by
  rw [h symbol, List.length_take, List.countP_eq_length_filter]
  omega

theorem Collects.insert (h : table.Collects rules) (hinsert : table.insert rule = .ok after)
    (hroom : (rules.countP fun other => other.left = rule.left) < Limits.rulesPerSymbol) :
    after.Collects (rules ++ [rule]) := by
  intro symbol
  rw [rulesOf_insert hinsert, h symbol]
  rw [List.countP_eq_length_filter] at hroom
  by_cases hsame : symbol = rule.left
  · subst hsame
    rw [if_pos rfl, filter_concat_of_left, List.take_of_length_le (Nat.le_of_lt hroom),
      List.take_of_length_le]
    rw [List.length_append]
    exact hroom
  · rw [if_neg hsame, filter_concat_of_other rules (Ne.symm hsame)]

theorem Collects.refuse (h : table.Collects rules)
    (hfull : Limits.rulesPerSymbol ≤ rules.countP fun other => other.left = rule.left) :
    table.Collects (rules ++ [rule]) := by
  intro symbol
  rw [h symbol]
  rw [List.countP_eq_length_filter] at hfull
  by_cases hsame : symbol = rule.left
  · subst hsame
    rw [filter_concat_of_left, List.take_append_of_le_length hfull]
  · rw [filter_concat_of_other rules (Ne.symm hsame)]

end ProductionTable

namespace RuleSet

variable {alphabet : Alphabet} {table : ProductionTable} {earlier : List Rule}

/-! ## Faults -/

/-- The rules of the entries that can be read, in order. -/
def readable (alphabet : Alphabet) (entries : List RuleEntry) : List Rule :=
  entries.filterMap fun entry => entry.rule? alphabet

theorem readable_cons (entry : RuleEntry) (entries : List RuleEntry) :
    readable alphabet (entry :: entries) =
      readable alphabet [entry] ++ readable alphabet entries :=
  List.filterMap_append (l := [entry])

/-- What is wrong with an entry, the readable rules before it being `earlier`. -/
def fault? (alphabet : Alphabet) (earlier : List Rule) (entry : RuleEntry) :
    Option GrammarError :=
  match Rule.parse alphabet entry.text entry.probability with
  | .error error => some error
  | .ok rule =>
      if (earlier.countP fun other => other.left = rule.left) < Limits.rulesPerSymbol then none
      else some (.tooManyAlternatives rule.left)

theorem fault?_of_error {entry : RuleEntry} {error : GrammarError}
    (h : Rule.parse alphabet entry.text entry.probability = .error error) :
    fault? alphabet earlier entry = some error := by
  simp only [fault?, h]

theorem fault?_of_ok {entry : RuleEntry} {rule : Rule}
    (h : Rule.parse alphabet entry.text entry.probability = .ok rule) :
    fault? alphabet earlier entry =
      if (earlier.countP fun other => other.left = rule.left) < Limits.rulesPerSymbol then none
      else some (.tooManyAlternatives rule.left) := by
  simp only [fault?, h]

/-- The first entry is reported with its fault, and the rest goes on behind it. -/
theorem compileFrom_cons (h : table.Collects earlier) (index : Nat) (entry : RuleEntry)
    (rest : List RuleEntry) :
    ∃ after : ProductionTable, after.Collects (earlier ++ readable alphabet [entry]) ∧
      compileFrom alphabet index table (entry :: rest) =
        ⟨(compileFrom alphabet (index + 1) after rest).table,
          ⟨index, entry.text, fault? alphabet earlier entry⟩ ::
            (compileFrom alphabet (index + 1) after rest).reports⟩ := by
  cases hparse : Rule.parse alphabet entry.text entry.probability with
  | error error =>
      refine ⟨table, ?_, ?_⟩
      · rw [readable, List.filterMap_cons_none (RuleEntry.rule?_of_error hparse),
          List.filterMap_nil, List.append_nil]
        exact h
      · rw [compileFrom_of_error (judge_of_unreadable table hparse), fault?_of_error hparse]
  | ok rule =>
      have hjudge := judge_of_readable table hparse
      rw [readable, List.filterMap_cons_some (RuleEntry.rule?_of_ok hparse), List.filterMap_nil,
        fault?_of_ok hparse]
      -- Rules that were offered count here, not those that were taken: once a symbol is full both
      -- counts have reached the bound.
      by_cases hroom : (earlier.countP fun other => other.left = rule.left) <
          Limits.rulesPerSymbol
      · obtain ⟨after, hinsert⟩ := ProductionTable.insert_of_room ((h.room_iff rule.left).2 hroom)
        refine ⟨after, h.insert hinsert hroom, ?_⟩
        rw [compileFrom_of_ok (hjudge.trans hinsert), if_pos hroom]
      · have hfull : Limits.rulesPerSymbol ≤ (table.rulesOf rule.left).length := by
          rw [← Nat.not_lt, h.room_iff]
          exact hroom
        have hinsert := ProductionTable.insert_of_full hfull
        refine ⟨table, h.refuse (Nat.le_of_not_lt hroom), ?_⟩
        rw [compileFrom_of_error (hjudge.trans hinsert), if_neg hroom]

/-- The table collects what can be read. -/
theorem collects_compileFrom (entries : List RuleEntry) (h : table.Collects earlier)
    (index : Nat) :
    (compileFrom alphabet index table entries).table.Collects
      (earlier ++ readable alphabet entries) := by
  induction entries generalizing table earlier index with
  | nil =>
      rw [readable, List.filterMap_nil, List.append_nil]
      exact h
  | cons entry rest ih =>
      obtain ⟨after, hafter, hcompile⟩ := compileFrom_cons h index entry rest
      rw [hcompile, readable_cons, ← List.append_assoc]
      exact ih hafter (index + 1)

/-- Each entry is reported with its fault. -/
theorem reports_compileFrom (entries : List RuleEntry) (h : table.Collects earlier)
    (index i : Nat) :
    (compileFrom alphabet index table entries).reports[i]? =
      entries[i]?.map fun entry => ⟨index + i, entry.text,
        fault? alphabet (earlier ++ readable alphabet (entries.take i)) entry⟩ := by
  induction entries generalizing table earlier index i with
  | nil => rfl
  | cons entry rest ih =>
      obtain ⟨after, hafter, hcompile⟩ := compileFrom_cons h index entry rest
      rw [hcompile]
      cases i with
      | zero =>
          rw [List.take_zero, readable, List.filterMap_nil, List.append_nil]
          rfl
      | succ i =>
          have hindex : index + (i + 1) = index + 1 + i := by omega
          rw [List.getElem?_cons_succ, List.getElem?_cons_succ, List.take_succ_cons,
            readable_cons _ (rest.take i), ← List.append_assoc, hindex]
          exact ih hafter (index + 1) i

theorem collects_compile (rules : RuleSet) :
    rules.compile.table.Collects (readable rules.alphabet rules.entries.toList) :=
  collects_compileFrom rules.entries.toList ProductionTable.collects_empty 0

theorem reports_compile (rules : RuleSet) (i : Nat) :
    rules.compile.reports[i]? = rules.entries.toList[i]?.map fun entry => ⟨i, entry.text,
      fault? rules.alphabet (readable rules.alphabet (rules.entries.toList.take i)) entry⟩ := by
  have hreports := @reports_compileFrom rules.alphabet _ _ rules.entries.toList
    ProductionTable.collects_empty 0 i
  rw [Nat.zero_add] at hreports
  exact hreports

/-! ## Leaving out what has a fault -/

/-- The entries that their reports find valid. -/
def accepted (entries : List RuleEntry) (reports : List RuleReport) : List RuleEntry :=
  ((entries.zip reports).filter fun pair => pair.2.isValid).map Prod.fst

theorem accepted_taken (entry : RuleEntry) (entries : List RuleEntry) (index : Nat)
    (text : String) (reports : List RuleReport) :
    accepted (entry :: entries) (⟨index, text, none⟩ :: reports) =
      entry :: accepted entries reports := rfl

theorem accepted_refused (entry : RuleEntry) (entries : List RuleEntry) (index : Nat)
    (text : String) (error : GrammarError) (reports : List RuleReport) :
    accepted (entry :: entries) (⟨index, text, some error⟩ :: reports) =
      accepted entries reports := rfl

/-- The entries that were taken are taken again, whatever their indices, and make the same table.
What was refused has changed nothing, so the two compilations meet the same tables. -/
theorem compileFrom_accepted (entries : List RuleEntry) (table : ProductionTable)
    (index index' : Nat) :
    (compileFrom alphabet index' table
        (accepted entries (compileFrom alphabet index table entries).reports)).table =
      (compileFrom alphabet index table entries).table ∧
    (compileFrom alphabet index' table
        (accepted entries (compileFrom alphabet index table entries).reports)).allValid =
      true := by
  induction entries generalizing table index index' with
  | nil => exact ⟨rfl, rfl⟩
  | cons entry rest ih =>
      cases hjudge : judge alphabet table entry with
      | error error =>
          rw [compileFrom_of_error hjudge, accepted_refused]
          exact ih table (index + 1) index'
      | ok after =>
          rw [compileFrom_of_ok hjudge, accepted_taken, compileFrom_of_ok hjudge]
          obtain ⟨htable, hvalid⟩ := ih after (index + 1) (index' + 1)
          refine ⟨htable, ?_⟩
          rw [CompiledRules.allValid, List.all_cons]
          exact hvalid

end RuleSet

end Lindenmayer
