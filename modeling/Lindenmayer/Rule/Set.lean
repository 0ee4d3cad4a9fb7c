import Lindenmayer.Rule.Table

/-!
# Rule sets

Rules as a user writes them: texts with probabilities, in order. Compiling judges each
entry; those that are refused are reported and left out of the table, and do not keep
the others from it.
-/

namespace Lindenmayer

/-- A rule text and its probability. -/
structure RuleEntry where
  text : String
  probability : Float := 1.0
deriving BEq

/-- What became of one entry. -/
structure RuleReport where
  index : Nat
  text : String
  error? : Option GrammarError

/-- The entry is in the table. -/
def RuleReport.isValid (report : RuleReport) : Bool := report.error?.isNone

/-- A table, and a report for every entry that it was made from. -/
structure CompiledRules where
  table : ProductionTable
  reports : List RuleReport

namespace CompiledRules

/-- The reports of entries that were refused. -/
def invalid (compiled : CompiledRules) : List RuleReport :=
  compiled.reports.filter fun report => !report.isValid

/-- No entry was refused. -/
def allValid (compiled : CompiledRules) : Bool := compiled.reports.all RuleReport.isValid

end CompiledRules

/-- Entries in the order in which they were given, over one alphabet. -/
structure RuleSet where
  alphabet : Alphabet
  entries : Array RuleEntry := #[]

namespace RuleSet

/-- One entry more. -/
def push (rules : RuleSet) (entry : RuleEntry) : RuleSet :=
  { rules with entries := rules.entries.push entry }

/-- The table with the rule of an entry added. -/
def judge (alphabet : Alphabet) (table : ProductionTable) (entry : RuleEntry) :
    Except GrammarError ProductionTable := do
  let rule ← Rule.parse alphabet entry.text entry.probability
  table.insert rule

/-- Judge entries in order, the first of which has the given index. -/
def compileFrom (alphabet : Alphabet) :
    (index : Nat) → ProductionTable → List RuleEntry → CompiledRules
  | _, table, [] => ⟨table, []⟩
  | index, table, entry :: rest =>
      match judge alphabet table entry with
      | .ok table =>
          let tail := compileFrom alphabet (index + 1) table rest
          { tail with reports := ⟨index, entry.text, none⟩ :: tail.reports }
      | .error error =>
          let tail := compileFrom alphabet (index + 1) table rest
          { tail with reports := ⟨index, entry.text, some error⟩ :: tail.reports }

/-- The table of the entries that are rules, and what became of each entry. -/
def compile (rules : RuleSet) : CompiledRules :=
  compileFrom rules.alphabet 0 .empty rules.entries.toList

end RuleSet

end Lindenmayer
