import Lindenmayer.Journal.Event
import Lindenmayer.Expander
import Lindenmayer.Rule.Set
import Lindenmayer.Turtle.Stem
import Lindenmayer.Turtle.Walk

/-!
# What the stages enter

Each stage of the work has a function here that says, from what went in and what came
out, which events it enters in the journal. The stages themselves know nothing of it.
-/

namespace Lindenmayer.Journal

/-- A number under a key. -/
def counted (key : String) (n : Nat) : String × String := (key, toString n)

/-- Reading a text of tokens, from what was found and the analyzer behind it. Errors are entered
with their places or without. -/
def reading (positions : Bool) (text : String) :
    Except LexicalError (List (Spanned Token)) × Analyzer → List Event
  | (.ok _, analyzer) =>
      [(Event.success .tokenizationComplete "Tokenization completed").entered
        [counted "tokens" analyzer.counts.total, counted "symbols" analyzer.counts.symbols]]
  | (.error (.tooLong length), _) =>
      [(Event.error .ruleTooLong "Rule text exceeds length limit").entered
        [counted "length" length, counted "limit" Limits.ruleLength]]
  | (.error (.invalidCharacter character position), _) =>
      let error := LexicalError.invalidCharacter character position
      let place :=
        if positions then
          [counted "line" position.line.toNat, counted "column" position.column.toNat]
        else []
      [(Event.error error.code error.message).entered (place ++ [("text", text)])]

/-- Reading a rule. -/
def ruleRead : Except RuleError RuleText → List Event
  | .ok text =>
      [(Event.debug "Rule parsed").noting
        [counted "tokens" text.tokens.length, counted "max_branch_depth" text.depth]]
  | .error _ => []

/-- Reading a rule that comes with a probability. -/
def ruleTried (alphabet : Alphabet) (text : String) (probability : Float) : List Event :=
  if Rule.inUnitInterval probability then ruleRead (RuleText.parse alphabet text) else []

/-- Judging an entry of a rule set. -/
def judged (alphabet : Alphabet) (entry : RuleEntry) (report : RuleReport) : List Event :=
  let about := [counted "index" report.index, ("rule", report.text)]
  ruleTried alphabet entry.text entry.probability ++
    match report.error? with
    | none => [(Event.success .ruleAccepted "Rule accepted").entered about]
    | some error =>
        [(Event.warning .ruleRejected "Rule rejected").entered
          (about ++ [("error_code", error.code.text), ("reason", error.message)])]

/-- How far a sum of probabilities may be from one before anything is said. -/
def sumTolerance : Float := 1e-9

/-- Adding up the probabilities of a symbol with several rules. -/
def summed (table : ProductionTable) (symbol : Char) : List Event :=
  if table.count symbol < 2 then []
  else
    let sum := table.probabilitySum symbol
    let about := [("symbol", symbol.toString), ("sum", Decimal.text sum)]
    if sum < 1.0 - sumTolerance then
      [(Event.warning .probabilityDeficit "Alternative probabilities sum below 1").entered about]
    else if sum > 1.0 + sumTolerance then
      [(Event.warning .probabilityExcess "Alternative probabilities sum above 1").entered about]
    else []

/-- Compiling a rule set. -/
def compiling (rules : RuleSet) (compiled : CompiledRules) : List Event :=
  let table := compiled.table
  (rules.entries.toList.zip compiled.reports).flatMap (fun entry =>
      judged rules.alphabet entry.1 entry.2) ++
    table.symbols.flatMap (summed table) ++
    [(Event.success .tableBuilt "Production table built").entered
      [counted "symbols" table.size, counted "rules" table.ruleCount,
        counted "rejected" compiled.invalid.length]]

/-- Making one pass over a word. -/
def stepping : Except LimitError Word → List Event
  | .ok _ => []
  | .error error =>
      [(Event.error error.code "Expansion aborted").entered
        [("limit", error.kind.text), counted "value" error.value, counted "max" error.limit]]

/-- The passes that were completed, of which the first has the given number. -/
def passes : (number : Nat) → (lengths : List Nat) → List Event
  | _, [] => []
  | number, length :: rest =>
      (Event.info "Rewrite iteration complete").entered
          [counted "iteration" number, counted "length" length] ::
        passes (number + 1) rest

/-- Expanding a word, with a note for each pass or without. -/
def expanding (notePasses : Bool) (result : Except LimitError Word) (metrics : Metrics) :
    List Event :=
  (if notePasses then passes 1 metrics.lengths.tail else []) ++
    match result with
    | .error _ => stepping result
    | .ok _ =>
        let dropped := metrics.tally.dropped
        (if dropped > 0 then
          [(Event.warning .symbolsDropped "Unmatched stochastic symbols were dropped").entered
            [counted "count" dropped]]
        else []) ++
        [(Event.success .expansionComplete "Expansion complete").entered
          [counted "iterations" metrics.iterations, counted "length" metrics.finalLength,
            counted "draws" metrics.tally.draws]]

/-- Fitting the step to the stem. -/
def fitting (moves : Nat) (base step : Float) : List Event :=
  [(Event.success .stepLengthComputed "Step length computed").entered
    [counted "stem_moves" moves, ("base_length", Decimal.text base),
      ("step_length", Decimal.text step)]]

/-- Walking along a word. -/
def walking {σ : Type} : Except StructuralError (σ × WalkSummary) → List Event
  | .ok (_, summary) =>
      [(Event.success .interpretationComplete "Interpretation complete").entered
        [counted "forward_moves" summary.forwardMoves, counted "branches" summary.branches,
          counted "discarded" summary.discarded, counted "max_depth" summary.maxDepth]]
  | .error error =>
      match error with
      | .unmatchedPop index =>
          [(Event.error error.code "Branch close without open branch").entered
            [counted "index" index]]
      | .unclosedBranches opened =>
          [(Event.error error.code "Sequence ends inside a branch").entered
            [counted "open" opened]]
      | .stackOverflow index _ _ =>
          [(Event.error error.code "Branch stack overflow").entered [counted "index" index]]

end Lindenmayer.Journal
