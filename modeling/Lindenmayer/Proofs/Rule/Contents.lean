import Lindenmayer.Rule.Table

/-!
# What a table contains

A table read symbol by symbol (`ProductionTable.rulesOf`):

* adding a rule puts it behind the rules of its symbol and changes no other symbol
  (`lookup_addTo_same`, `lookup_addTo_other`, `rulesOf_insert`);
* a rule is refused where its symbol has as many rules as it may have (`insert_of_room`,
  `insert_of_full`);
* so a table that holds the rules of a list holds one more after an insertion (`Holds.insert`).
-/

namespace Lindenmayer.ProductionTable

/-- The rules of a symbol in the order in which they came in. -/
def rulesOf (table : ProductionTable) (symbol : Char) : List Rule :=
  ((table.get? symbol).map Alternatives.toList).getD []

/-- The table has the rules of the list, those of each symbol in the order of the list. -/
def Holds (table : ProductionTable) (rules : List Rule) : Prop :=
  ∀ symbol, table.rulesOf symbol = rules.filter fun rule => rule.left = symbol

variable {table : ProductionTable} {rule : Rule} {symbol : Char}

theorem rulesOf_of_get? {alternatives : Alternatives}
    (h : table.get? symbol = some alternatives) :
    table.rulesOf symbol = alternatives.toList := by
  simp [rulesOf, h]

theorem get?_eq_none_iff : table.get? symbol = none ↔ table.rulesOf symbol = [] := by
  cases h : table.get? symbol with
  | none => simp [rulesOf, h]
  | some alternatives => simp [rulesOf, h, Alternatives.toList]

/-- A symbol stands in the table with all its rules or not at all. -/
theorem map_toList_get? (table : ProductionTable) (symbol : Char) :
    (table.get? symbol).map Alternatives.toList =
      if table.rulesOf symbol = [] then none else some (table.rulesOf symbol) := by
  cases h : table.get? symbol with
  | none =>
      rw [if_pos (get?_eq_none_iff.1 h)]
      rfl
  | some alternatives =>
      have hne : table.rulesOf symbol ≠ [] := by
        intro hnil
        rw [get?_eq_none_iff.2 hnil] at h
        cases h
      rw [if_neg hne, rulesOf_of_get? h]
      rfl

theorem count_eq_length (table : ProductionTable) (symbol : Char) :
    table.count symbol = (table.rulesOf symbol).length := by
  unfold count rulesOf
  cases table.get? symbol with
  | none => rfl
  | some alternatives => rfl

/-! ## Insertion -/

theorem lookup_addTo_other (hother : symbol ≠ rule.left)
    (entries : List (Char × Alternatives)) :
    (addTo rule entries).lookup symbol = entries.lookup symbol := by
  have hbeq : (symbol == rule.left) = false := by simpa using hother
  induction entries with
  | nil => simp [addTo, List.lookup_cons, hbeq]
  | cons head rest ih =>
      obtain ⟨key, alternatives⟩ := head
      unfold addTo
      split
      · simp [List.lookup_cons, hbeq]
      split
      · next hsame =>
        subst hsame
        simp [List.lookup_cons, hbeq]
      · rw [List.lookup_cons, List.lookup_cons, ih]

/-- The order of the symbols matters here: a symbol that stands before the first one is nowhere
behind it. -/
theorem lookup_addTo_same (rule : Rule) {entries : List (Char × Alternatives)}
    (hsorted : entries.Pairwise fun a b => a.1 < b.1) :
    ((addTo rule entries).lookup rule.left).map Alternatives.toList =
      some (((entries.lookup rule.left).map Alternatives.toList).getD [] ++ [rule]) := by
  induction entries with
  | nil => simp [addTo, Alternatives.toList]
  | cons head rest ih =>
      obtain ⟨key, alternatives⟩ := head
      obtain ⟨habove, hrest⟩ := List.pairwise_cons.1 hsorted
      unfold addTo
      split
      · next hbelow =>
        have hnone : ((key, alternatives) :: rest).lookup rule.left = none := by
          rw [List.lookup_eq_none_iff]
          intro entry hentry
          have hlt : rule.left < entry.1 := by
            rcases List.mem_cons.1 hentry with rfl | hmem
            · exact hbelow
            · exact Char.lt_trans hbelow (habove entry hmem)
          simpa using Char.ne_of_lt hlt
        simp [hnone, Alternatives.toList]
      split
      · next hsame =>
        subst hsame
        simp
      · next hnew =>
        have hbeq : (rule.left == key) = false := by simpa using hnew
        simp only [List.lookup_cons, hbeq]
        exact ih hrest

theorem insert_of_room (hroom : (table.rulesOf rule.left).length < Limits.rulesPerSymbol) :
    ∃ after, table.insert rule = .ok after := by
  rw [← count_eq_length] at hroom
  exact ⟨_, if_pos hroom⟩

theorem insert_of_full (hfull : Limits.rulesPerSymbol ≤ (table.rulesOf rule.left).length) :
    table.insert rule = .error (.tooManyAlternatives rule.left) := by
  rw [← count_eq_length] at hfull
  exact if_neg (Nat.not_lt_of_le hfull)

/-- The rule comes in behind the others of its symbol. -/
theorem rulesOf_insert {after : ProductionTable} (h : table.insert rule = .ok after)
    (symbol : Char) :
    after.rulesOf symbol =
      if symbol = rule.left then table.rulesOf symbol ++ [rule] else table.rulesOf symbol := by
  unfold insert at h
  split at h <;> cases h
  by_cases hsame : symbol = rule.left
  · subst hsame
    have hlookup := lookup_addTo_same rule table.sorted
    simp [rulesOf, get?, hlookup]
  · have hlookup := lookup_addTo_other hsame table.entries
    simp [rulesOf, get?, hlookup, hsame]

theorem holds_empty : empty.Holds [] := by
  intro symbol
  rfl

theorem Holds.insert {rules : List Rule} (h : table.Holds rules) {after : ProductionTable}
    (hinsert : table.insert rule = .ok after) : after.Holds (rules ++ [rule]) := by
  intro symbol
  rw [rulesOf_insert hinsert, List.filter_append, h symbol]
  by_cases hsame : symbol = rule.left
  · subst hsame
    simp
  · have hne : ¬ rule.left = symbol := fun heq => hsame heq.symm
    simp [hsame, hne]

end Lindenmayer.ProductionTable
