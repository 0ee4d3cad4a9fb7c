import Lindenmayer.Proofs.Rule.Faults
import Mathlib.Algebra.BigOperators.Group.List.Basic
import Mathlib.Algebra.Ring.Nat
import Mathlib.Data.List.Nodup
import Mathlib.Util.Superscript

/-!
# A table under any history of insertions

Rules are offered to a table one after the other, and each is answered (`ProductionTable.offers`).

* The table then has the first rules offered for each symbol, as many as there is room for
  (`Collects`), which are the rules that were accepted (`Holds`); both come with the number of its
  rules in `Recorded`, which every offer keeps (`Recorded.offer`).
* A table may also be changed in place. The entry of a symbol is then made before its room is
  looked at (`Slots.offer`), so a rule that is refused might leave an entry without rules behind.
  It does not: the slots mirror the table after every offer (`Mirrors.offer`), since an entry that
  is full was there before.
-/

namespace Lindenmayer

namespace ProductionTable

/-- The answer to an offered rule, and the table behind it. -/
def offer (table : ProductionTable) (rule : Rule) : Except GrammarError Unit × ProductionTable :=
  match table.insert rule with
  | .ok after => (.ok (), after)
  | .error error => (.error error, table)

/-- The answers to rules offered one after the other, and the table behind the last. -/
def offers : ProductionTable → List Rule → List (Except GrammarError Unit) × ProductionTable
  | table, [] => ([], table)
  | table, rule :: rest =>
      let next := (table.offer rule).2.offers rest
      ((table.offer rule).1 :: next.1, next.2)

/-- The rules that were accepted, by the answers to them. -/
def accepted (rules : List Rule) (answers : List (Except GrammarError Unit)) : List Rule :=
  ((rules.zip answers).filter fun pair => pair.2.isOk).map Prod.fst

variable {table after : ProductionTable} {rule : Rule} {rules taken : List Rule}

/-! ## The number of rules -/

theorem ruleCount_eq_sum (table : ProductionTable) :
    table.ruleCount = (table.entries.map fun entry => entry.2.toList.length).sum := by
  rw [ruleCount, List.sum_eq_foldl, List.foldl_map]

theorem sum_addTo (rule : Rule) (entries : List (Char × Alternatives)) :
    ((addTo rule entries).map fun entry => entry.2.toList.length).sum =
      (entries.map fun entry => entry.2.toList.length).sum + 1 := by
  induction entries with
  | nil => rfl
  | cons head rest ih =>
      obtain ⟨symbol, alternatives⟩ := head
      unfold addTo
      split
      · simp only [List.map_cons, List.sum_cons, Alternatives.toList, List.length_cons,
          List.length_nil]
        omega
      split
      · simp only [List.map_cons, List.sum_cons, Alternatives.toList_push, List.length_append,
          List.length_cons, List.length_nil]
        omega
      · rw [List.map_cons, List.sum_cons, ih, List.map_cons, List.sum_cons, Nat.add_assoc]

theorem ruleCount_insert (h : table.insert rule = .ok after) :
    after.ruleCount = table.ruleCount + 1 := by
  unfold insert at h
  split at h <;> cases h
  rw [ruleCount_eq_sum, ruleCount_eq_sum, sum_addTo]

/-! ## Offers -/

/-- The table was offered some rules and has taken those of `taken`. -/
structure Recorded (table : ProductionTable) (rules taken : List Rule) : Prop where
  collects : table.Collects rules
  holds : table.Holds taken
  count : table.ruleCount = taken.length

theorem Recorded.empty : empty.Recorded [] [] := ⟨collects_empty, holds_empty, rfl⟩

/-- No symbol has more rules than it may have. -/
theorem Recorded.count_le (h : table.Recorded rules taken) (symbol : Char) :
    taken.countP (fun rule => rule.left = symbol) ≤ Limits.rulesPerSymbol := by
  rw [List.countP_eq_length_filter, ← h.holds symbol, h.collects symbol]
  exact List.length_take_le _ _

/-- A symbol is full when as many rules were accepted for it as it may have. -/
theorem Recorded.full_iff (h : table.Recorded rules taken) (symbol : Char) :
    Limits.rulesPerSymbol ≤ (table.rulesOf symbol).length ↔
      taken.countP (fun rule => rule.left = symbol) = Limits.rulesPerSymbol := by
  have hle := h.count_le symbol
  rw [h.holds symbol, ← List.countP_eq_length_filter]
  omega

theorem offer_of_full (h : table.Recorded rules taken)
    (hfull : taken.countP (fun other => other.left = rule.left) = Limits.rulesPerSymbol) :
    table.offer rule = (.error (.tooManyAlternatives rule.left), table) := by
  rw [offer, insert_of_full ((h.full_iff rule.left).2 hfull)]

theorem exists_offer_of_room (h : table.Recorded rules taken)
    (hroom : taken.countP (fun other => other.left = rule.left) ≠ Limits.rulesPerSymbol) :
    ∃ after, table.insert rule = .ok after ∧ table.offer rule = (.ok (), after) := by
  have hlt : (table.rulesOf rule.left).length < Limits.rulesPerSymbol :=
    Nat.lt_of_not_le (mt (h.full_iff rule.left).1 hroom)
  obtain ⟨after, hinsert⟩ := insert_of_room hlt
  exact ⟨after, hinsert, by rw [offer, hinsert]⟩

/-- One offer more is recorded, whether it is accepted or refused. -/
theorem Recorded.offer (h : table.Recorded rules taken) (rule : Rule) :
    (table.offer rule).2.Recorded (rules ++ [rule])
      (taken ++ accepted [rule] [(table.offer rule).1]) := by
  by_cases hfull :
      taken.countP (fun other => other.left = rule.left) = Limits.rulesPerSymbol
  · rw [offer_of_full h hfull]
    have hoffered : Limits.rulesPerSymbol ≤ rules.countP fun other => other.left = rule.left := by
      rw [← Nat.not_lt, ← h.collects.room_iff, Nat.not_lt]
      exact (h.full_iff rule.left).2 hfull
    refine ⟨h.collects.refuse hoffered, ?_, ?_⟩
    · simpa [accepted, Except.isOk, Except.toBool] using h.holds
    · simpa [accepted, Except.isOk, Except.toBool] using h.count
  · obtain ⟨after, hinsert, hoffer⟩ := exists_offer_of_room h hfull
    rw [hoffer]
    have hroom : (rules.countP fun other => other.left = rule.left) < Limits.rulesPerSymbol := by
      rw [← h.collects.room_iff]
      exact Nat.lt_of_not_le (mt (h.full_iff rule.left).1 hfull)
    refine ⟨h.collects.insert hinsert hroom, h.holds.insert hinsert, ?_⟩
    rw [ruleCount_insert hinsert, h.count, List.length_append]
    rfl

theorem accepted_cons (rule : Rule) (rules : List Rule) (answer : Except GrammarError Unit)
    (answers : List (Except GrammarError Unit)) :
    accepted (rule :: rules) (answer :: answers) =
      accepted [rule] [answer] ++ accepted rules answers := by
  simp only [accepted, List.zip_cons_cons, List.zip_nil_right, List.filter_cons, List.filter_nil]
  split <;> rfl

theorem Recorded.offers (h : table.Recorded rules taken) (later : List Rule) :
    (table.offers later).2.Recorded (rules ++ later)
      (taken ++ accepted later (table.offers later).1) := by
  induction later generalizing table rules taken with
  | nil => simpa [ProductionTable.offers, accepted] using h
  | cons rule rest ih =>
      have hrest := ih (h.offer rule)
      rw [List.append_assoc, List.append_assoc, ← accepted_cons] at hrest
      exact hrest

/-- Collecting rules into a table is offering them to it. -/
theorem foldl_insert_eq (table : ProductionTable) (rules : List Rule) :
    rules.foldl (fun table rule => (table.insert rule).toOption.getD table) table =
      (table.offers rules).2 := by
  induction rules generalizing table with
  | nil => rfl
  | cons rule rest ih =>
      have hoffer : (table.insert rule).toOption.getD table = (table.offer rule).2 := by
        unfold offer
        cases table.insert rule with
        | ok after => rfl
        | error error => rfl
      rw [List.foldl_cons, hoffer, ih]
      rfl

/-! ## What a table shows -/

theorem mem_symbols_iff {symbol : Char} :
    symbol ∈ table.symbols ↔ table.rulesOf symbol ≠ [] := by
  rw [ne_eq, ← get?_eq_none_iff, symbols, List.mem_map]
  constructor
  · rintro ⟨⟨_, alternatives⟩, hmem, rfl⟩ hnone
    rw [mem_entries_iff.1 hmem] at hnone
    cases hnone
  · intro hsome
    obtain ⟨alternatives, hget⟩ := Option.ne_none_iff_exists'.1 hsome
    exact ⟨_, mem_entries_iff.2 hget, rfl⟩

theorem Collects.rulesOf_eq_nil_iff (h : table.Collects rules) (symbol : Char) :
    table.rulesOf symbol = [] ↔ ∀ rule ∈ rules, rule.left ≠ symbol := by
  have hlimit : Limits.rulesPerSymbol ≠ 0 := by decide
  rw [h symbol, List.take_eq_nil_iff]
  simp [hlimit]

theorem symbols_pairwise (table : ProductionTable) : table.symbols.Pairwise (· < ·) :=
  List.pairwise_map.2 table.sorted

end ProductionTable

/-! ## In place -/

/-- The rules of the symbols, changed in place. A symbol might stand here without rules. -/
abbrev Slots := Std.HashMap Char (List Rule)

namespace Slots

/-- The answer to an offered rule, and the slots behind it. The symbol of the rule is given an
entry if it has none, and then its room is looked at. -/
def offer (slots : Slots) (rule : Rule) : Except GrammarError Unit × Slots :=
  let opened := slots.insertIfNew rule.left []
  let alternatives := opened.getD rule.left []
  if Limits.rulesPerSymbol ≤ alternatives.length then
    (.error (.tooManyAlternatives rule.left), opened)
  else (.ok (), opened.insert rule.left (alternatives ++ [rule]))

/-- The answers to rules offered one after the other, and the slots behind the last. -/
def offers : Slots → List Rule → List (Except GrammarError Unit) × Slots
  | slots, [] => ([], slots)
  | slots, rule :: rest =>
      let next := offers (offer slots rule).2 rest
      ((offer slots rule).1 :: next.1, next.2)

/-- The slots are those of the table's symbols, each with its rules. -/
def Mirrors (slots : Slots) (table : ProductionTable) : Prop :=
  ∀ symbol, slots[symbol]? = (table.get? symbol).map Alternatives.toList

variable {slots : Slots} {table : ProductionTable}

theorem mirrors_empty : Mirrors ∅ .empty := by
  intro symbol
  rw [Std.HashMap.getElem?_empty]
  rfl

theorem Mirrors.getD (h : Mirrors slots table) (symbol : Char) :
    slots.getD symbol [] = table.rulesOf symbol := by
  rw [Std.HashMap.getD_eq_getD_getElem?, h symbol]
  rfl

theorem getD_opened (slots : Slots) (symbol : Char) :
    (slots.insertIfNew symbol []).getD symbol [] = slots.getD symbol [] := by
  rw [Std.HashMap.getD_insertIfNew]
  split
  · next hnew =>
    rw [Std.HashMap.getD_eq_fallback hnew.2]
  · rfl

/-- The slots change as the table does. A symbol that is full had an entry before. -/
theorem Mirrors.offer (h : Mirrors slots table) (rule : Rule) :
    (offer slots rule).1 = (table.offer rule).1 ∧
      Mirrors (Slots.offer slots rule).2 (table.offer rule).2 := by
  have hrules : (slots.insertIfNew rule.left []).getD rule.left [] = table.rulesOf rule.left := by
    rw [getD_opened, h.getD]
  unfold Slots.offer
  simp only [hrules]
  by_cases hfull : Limits.rulesPerSymbol ≤ (table.rulesOf rule.left).length
  · have hmem : rule.left ∈ slots := by
      rw [Std.HashMap.mem_iff_isSome_getElem?, h rule.left, Option.isSome_map,
        Option.isSome_iff_ne_none, ne_eq, ProductionTable.get?_eq_none_iff]
      intro hnil
      rw [hnil] at hfull
      exact absurd hfull (by decide)
    rw [if_pos hfull, ProductionTable.offer, ProductionTable.insert_of_full hfull]
    refine ⟨rfl, ?_⟩
    intro symbol
    rw [Std.HashMap.getElem?_insertIfNew, if_neg (fun hnew => hnew.2 hmem)]
    exact h symbol
  · obtain ⟨after, hinsert⟩ := ProductionTable.insert_of_room (Nat.lt_of_not_le hfull)
    rw [if_neg hfull, ProductionTable.offer, hinsert]
    refine ⟨rfl, ?_⟩
    intro symbol
    rw [ProductionTable.map_toList_get?, ProductionTable.rulesOf_insert hinsert,
      Std.HashMap.getElem?_insert]
    by_cases hsame : symbol = rule.left
    · subst hsame
      simp
    · have hbeq : (rule.left == symbol) = false := by simpa using Ne.symm hsame
      rw [if_neg hsame, hbeq, Std.HashMap.getElem?_insertIfNew, hbeq,
        ← ProductionTable.map_toList_get?]
      simpa using h symbol

theorem Mirrors.offers (h : Mirrors slots table) (rules : List Rule) :
    (Slots.offers slots rules).1 = (table.offers rules).1 ∧
      Mirrors (Slots.offers slots rules).2 (table.offers rules).2 := by
  induction rules generalizing slots table with
  | nil => exact ⟨rfl, h⟩
  | cons rule rest ih =>
      obtain ⟨hanswer, hnext⟩ := h.offer rule
      obtain ⟨hanswers, hlast⟩ := ih hnext
      exact ⟨congrArg₂ List.cons hanswer hanswers, hlast⟩

/-- Slots and table have the same entries, in whatever order. -/
theorem Mirrors.perm (h : Mirrors slots table) :
    slots.toList.Perm (table.entries.map fun entry => (entry.1, entry.2.toList)) := by
  refine (List.perm_ext_iff_of_nodup ?_ ?_).2 ?_
  · refine List.Nodup.of_map Prod.fst ?_
    rw [Std.HashMap.map_fst_toList_eq_keys]
    exact Std.HashMap.nodup_keys
  · refine List.Nodup.of_map Prod.fst ?_
    rw [List.map_map]
    exact (ProductionTable.symbols_pairwise table).imp Char.ne_of_lt
  · rintro ⟨symbol, rules⟩
    rw [Std.HashMap.mem_toList_iff_getElem?_eq_some, h symbol, List.mem_map,
      Option.map_eq_some_iff]
    constructor
    · rintro ⟨alternatives, hget, rfl⟩
      exact ⟨_, ProductionTable.mem_entries_iff.2 hget, rfl⟩
    · rintro ⟨⟨_, alternatives⟩, hmem, heq⟩
      cases heq
      exact ⟨alternatives, ProductionTable.mem_entries_iff.1 hmem, rfl⟩

theorem Mirrors.symbols (h : Mirrors slots table) : slots.keys.Perm table.symbols := by
  have hkeys := h.perm.map Prod.fst
  rw [Std.HashMap.map_fst_toList_eq_keys, List.map_map] at hkeys
  exact hkeys

theorem Mirrors.ruleCount (h : Mirrors slots table) :
    (slots.toList.map fun slot => slot.2.length).sum = table.ruleCount := by
  rw [(h.perm.map fun slot => slot.2.length).sum_eq, List.map_map,
    ProductionTable.ruleCount_eq_sum]
  rfl

end Slots

/-- Whatever rules are offered to a table, it has the first of each symbol in their order, as many
as there is room for, and no entry without rules. A rule is refused if and only if as many were
accepted for its symbol as there is room for, and nothing changes then. All of this is so as well
if the table is changed in place. -/
theorem ProductionTable.offers_exact (rules : List Rule) :
    let answers := (ProductionTable.empty.offers rules).1
    let table := (ProductionTable.empty.offers rules).2
    let slots := (Slots.offers ∅ rules).2
    let taken := ProductionTable.accepted rules answers
    (∀ symbol, (table.get? symbol).map Alternatives.toList =
      if ∀ rule ∈ rules, rule.left ≠ symbol then none
      else some ((rules.filter fun rule => rule.left = symbol).take Limits.rulesPerSymbol)) ∧
    (∀ rule,
      (table.offer rule).1 =
        if taken.countP (fun other => other.left = rule.left) = Limits.rulesPerSymbol then
          .error (.tooManyAlternatives rule.left)
        else .ok ()) ∧
    (∀ rule,
      (table.offer rule).2 = table ↔
        taken.countP (fun other => other.left = rule.left) = Limits.rulesPerSymbol) ∧
    (∀ symbol, (table.get? symbol).map Alternatives.toList ≠ some []) ∧
    table.symbols.Pairwise (· < ·) ∧
    (∀ symbol, symbol ∈ table.symbols ↔ ∃ rule ∈ rules, rule.left = symbol) ∧
    table.size = table.symbols.length ∧
    table.ruleCount = taken.length ∧
    ProductionTable.ofRules rules = table ∧
    (Slots.offers ∅ rules).1 = answers ∧
    Slots.Mirrors slots table ∧
    (∀ rule,
      (Slots.offer slots rule).1 = (table.offer rule).1 ∧
        Slots.Mirrors (Slots.offer slots rule).2 (table.offer rule).2) ∧
    slots.keys.Perm table.symbols ∧
    (slots.toList.map fun slot => slot.2.length).sum = taken.length := by
  intro answers table slots taken
  have hrecorded : table.Recorded rules taken :=
    ProductionTable.Recorded.empty.offers rules
  obtain ⟨hanswers, hmirrors⟩ := Slots.mirrors_empty.offers rules
  have hempty := hrecorded.collects.rulesOf_eq_nil_iff
  refine ⟨?_, ?_, ?_, ?_, table.symbols_pairwise, ?_, ?_, hrecorded.count, ?_, hanswers,
    hmirrors, fun rule => hmirrors.offer rule, hmirrors.symbols, ?_⟩
  · intro symbol
    rw [ProductionTable.map_toList_get?, hrecorded.collects symbol]
    simp only [← hrecorded.collects symbol, hempty symbol]
  · intro rule
    split
    · next hfull => rw [ProductionTable.offer_of_full hrecorded hfull]
    · next hroom =>
      obtain ⟨after, -, hoffer⟩ := ProductionTable.exists_offer_of_room hrecorded hroom
      rw [hoffer]
  · intro rule
    constructor
    · intro hsame
      by_contra hroom
      obtain ⟨after, hinsert, hoffer⟩ :=
        ProductionTable.exists_offer_of_room hrecorded hroom
      rw [hoffer] at hsame
      have hcount := ProductionTable.ruleCount_insert hinsert
      rw [show after = table from hsame] at hcount
      omega
    · intro hfull
      rw [ProductionTable.offer_of_full hrecorded hfull]
  · intro symbol
    rw [ProductionTable.map_toList_get?]
    split
    · intro hsome
      cases hsome
    · next hne => exact fun hnil => hne (Option.some.inj hnil)
  · intro symbol
    rw [ProductionTable.mem_symbols_iff, ne_eq, hempty symbol]
    push Not
    rfl
  · exact (List.length_map _).symm
  · exact ProductionTable.foldl_insert_eq .empty rules
  · rw [hmirrors.ruleCount, hrecorded.count]

end Lindenmayer
