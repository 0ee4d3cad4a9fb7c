import Lindenmayer.Rule

/-!
# Production tables

A table gives each symbol its alternatives in the order in which they came in, which
decides between them when a draw is made. A symbol in the table has at least one
alternative and at most `Limits.rulesPerSymbol`; symbols stand in the order of their
code points.
-/

namespace Lindenmayer

/-- The rules of one symbol: the first and those that came in later. -/
structure Alternatives where
  first : Rule
  others : List Rule
deriving BEq

namespace Alternatives

/-- The rules in the order in which they came in. -/
def toList (alternatives : Alternatives) : List Rule :=
  alternatives.first :: alternatives.others

/-- One rule more, behind the others. -/
def push (alternatives : Alternatives) (rule : Rule) : Alternatives :=
  { alternatives with others := alternatives.others ++ [rule] }

@[simp] theorem toList_push (alternatives : Alternatives) (rule : Rule) :
    (alternatives.push rule).toList = alternatives.toList ++ [rule] := rfl

end Alternatives

namespace ProductionTable

/-- Add a rule to the alternatives of its symbol. -/
def addTo (rule : Rule) : List (Char × Alternatives) → List (Char × Alternatives)
  | [] => [(rule.left, ⟨rule, []⟩)]
  | (symbol, alternatives) :: rest =>
      if rule.left < symbol then
        (rule.left, ⟨rule, []⟩) :: (symbol, alternatives) :: rest
      else if rule.left = symbol then (symbol, alternatives.push rule) :: rest
      else (symbol, alternatives) :: addTo rule rest

/-- Only the symbol of the rule may be new. -/
theorem fst_of_mem_addTo {rule : Rule} {entries : List (Char × Alternatives)}
    {entry : Char × Alternatives} (h : entry ∈ addTo rule entries) :
    entry.1 = rule.left ∨ ∃ old ∈ entries, old.1 = entry.1 := by
  induction entries with
  | nil => simp_all [addTo]
  | cons head rest ih =>
      obtain ⟨symbol, alternatives⟩ := head
      unfold addTo at h
      split at h
      · rcases List.mem_cons.1 h with rfl | h
        · exact .inl rfl
        · exact .inr ⟨entry, h, rfl⟩
      split at h
      · rcases List.mem_cons.1 h with rfl | h
        · exact .inr ⟨(symbol, alternatives), by simp, rfl⟩
        · exact .inr ⟨entry, by simp [h], rfl⟩
      · rcases List.mem_cons.1 h with rfl | h
        · exact .inr ⟨(symbol, alternatives), by simp, rfl⟩
        · rcases ih h with same | ⟨old, mem, same⟩
          · exact .inl same
          · exact .inr ⟨old, by simp [mem], same⟩

/-- The symbols stay in order. -/
theorem addTo_sorted (rule : Rule) {entries : List (Char × Alternatives)}
    (h : entries.Pairwise fun a b => a.1 < b.1) :
    (addTo rule entries).Pairwise fun a b => a.1 < b.1 := by
  induction entries with
  | nil => simp [addTo]
  | cons head rest ih =>
      obtain ⟨symbol, alternatives⟩ := head
      have ⟨above, sorted⟩ := List.pairwise_cons.1 h
      unfold addTo
      split
      · next below =>
        refine List.pairwise_cons.2 ⟨?_, h⟩
        intro entry mem
        rcases List.mem_cons.1 mem with rfl | mem
        · exact below
        · exact Char.lt_trans below (above entry mem)
      split
      · next same =>
        exact List.pairwise_cons.2 ⟨above, sorted⟩
      · next notBelow notSame =>
        refine List.pairwise_cons.2 ⟨?_, ih sorted⟩
        intro entry mem
        rcases fst_of_mem_addTo mem with same | ⟨old, oldMem, same⟩
        · rw [same]
          exact Char.not_le.1 fun le => notSame (Char.le_antisymm le (Char.not_lt.1 notBelow))
        · rw [← same]
          exact above old oldMem

end ProductionTable

/-- The alternatives of each symbol. -/
structure ProductionTable where
  entries : List (Char × Alternatives) := []
  sorted : entries.Pairwise (fun a b => a.1 < b.1) := by exact .nil

namespace ProductionTable

instance : BEq ProductionTable := ⟨fun s t => s.entries == t.entries⟩

/-- The alternatives of a symbol, if it has any. -/
def get? (table : ProductionTable) (symbol : Char) : Option Alternatives :=
  table.entries.lookup symbol

/-- Number of rules of a symbol. -/
def count (table : ProductionTable) (symbol : Char) : Nat :=
  match table.get? symbol with
  | none => 0
  | some alternatives => alternatives.toList.length

/-- Add a rule; a symbol with as many rules as it may have takes no more. -/
def insert (table : ProductionTable) (rule : Rule) : Except GrammarError ProductionTable :=
  if table.count rule.left < Limits.rulesPerSymbol then
    .ok { entries := addTo rule table.entries, sorted := addTo_sorted rule table.sorted }
  else .error (.tooManyAlternatives rule.left)

/-- The table without rules. -/
def empty : ProductionTable where
  entries := []
  sorted := .nil

/-- The table of a list of rules, less those for which there is no room. -/
def ofRules (rules : List Rule) : ProductionTable :=
  rules.foldl (fun table rule => (table.insert rule).toOption.getD table) empty

/-- The symbols with rules, in order. -/
def symbols (table : ProductionTable) : List Char := table.entries.map Prod.fst

/-- Number of symbols with rules. -/
def size (table : ProductionTable) : Nat := table.entries.length

/-- Number of rules. -/
def ruleCount (table : ProductionTable) : Nat :=
  table.entries.foldl (fun count entry => count + entry.2.toList.length) 0

/-- The sum of a symbol's probabilities from left to right. It starts from the zero that
adds nothing, `-0`, so that rules of probability `-0` sum to `-0`. -/
def probabilitySum (table : ProductionTable) (symbol : Char) : Float :=
  match table.get? symbol with
  | none => 0.0
  | some alternatives => alternatives.toList.foldl (fun sum rule => sum + rule.probability) (-0.0)

end ProductionTable

end Lindenmayer
