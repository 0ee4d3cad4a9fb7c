import Lindenmayer.Random.Stream
import Lindenmayer.Rule.Table
import Lindenmayer.Word

/-!
# Expanding

One pass over a word replaces every symbol that has rules and copies the other tokens.
A symbol with one rule is replaced by its body; a symbol with several takes one draw
from the random stream, which chooses among them. `Expander.step` makes a pass,
`Expander.expand` several, and both keep account in a `Progress`. A pass never builds a
word longer than the expander's limit.
-/

namespace Lindenmayer

/-- What becomes of a symbol when its draw matches none of its alternatives. -/
inductive NoMatchPolicy where
  | drop
  | keep
deriving DecidableEq

namespace NoMatchPolicy

/-- Read a policy's name in any case, blanks around it aside; what is wrong otherwise. -/
def parse (text : String) : Except String NoMatchPolicy :=
  match (Text.trim text).map Char.toLower with
  | "drop" => .ok .drop
  | "keep" => .ok .keep
  | other => .error ("unknown no-match policy '" ++ other ++ "'")

end NoMatchPolicy

/-- Bounds of an expansion. -/
structure ExpansionLimits where
  iterations : Nat := Limits.iterations
  wordLength : Nat := Limits.wordLength
deriving DecidableEq

/-- The given bounds, tightened to those of `Limits`. -/
def ExpansionLimits.of (iterations wordLength : Nat) : ExpansionLimits where
  iterations := min iterations Limits.iterations
  wordLength := min wordLength Limits.wordLength

/-- What a limit bounds. -/
inductive LimitKind where
  | iterations
  | wordLength
deriving DecidableEq

/-- The bounded quantity in words. -/
def LimitKind.text : LimitKind → String
  | iterations => "iteration count"
  | wordLength => "sequence length"

/-- A limit that would have been exceeded, and the value that would have done it. -/
structure LimitError where
  kind : LimitKind
  value : Nat
  limit : Nat
deriving DecidableEq

namespace LimitError

/-- The code of the error. -/
def code (error : LimitError) : Code :=
  match error.kind with
  | .iterations => .iterationLimit
  | .wordLength => .lengthLimit

/-- The error in words. -/
def message (error : LimitError) : String :=
  error.kind.text ++ " limit exceeded: " ++ toString error.value ++ " > " ++
    toString error.limit

end LimitError

/-- Counts of what became of symbols. -/
structure Tally where
  /-- Draws taken from the random stream. -/
  draws : Nat := 0
  /-- Symbols left out because their draw matched no alternative. -/
  dropped : Nat := 0
  /-- Symbols kept although their draw matched no alternative. -/
  kept : Nat := 0
  /-- Symbols without rules. -/
  terminals : Nat := 0
deriving DecidableEq

namespace Tally

/-- The counts of two stretches of work together. -/
def add (a b : Tally) : Tally :=
  ⟨a.draws + b.draws, a.dropped + b.dropped, a.kept + b.kept, a.terminals + b.terminals⟩

@[simp] theorem empty_add (a : Tally) : ({} : Tally).add a = a := by
  simp [add]

theorem add_assoc (a b c : Tally) : (a.add b).add c = a.add (b.add c) := by
  simp [add, Nat.add_assoc]

end Tally

/-- The account of an expansion: the length of the word before the first pass and after
each pass, and the counts over all passes. -/
structure Metrics where
  lengths : List Nat := []
  tally : Tally := {}
deriving DecidableEq

namespace Metrics

/-- Number of passes made. -/
def iterations (metrics : Metrics) : Nat := metrics.lengths.length - 1

/-- The length of the last word. -/
def finalLength (metrics : Metrics) : Nat := metrics.lengths.getLast?.getD 0

/-- The final length over the first; zero if the first is. -/
def growth (metrics : Metrics) : Float :=
  match metrics.lengths with
  | [] | 0 :: _ => 0.0
  | first :: _ => metrics.finalLength.toFloat / first.toFloat

/-- One more length. -/
def measure (metrics : Metrics) (length : Nat) : Metrics :=
  { metrics with lengths := metrics.lengths ++ [length] }

/-- More counts. -/
def count (metrics : Metrics) (tally : Tally) : Metrics :=
  { metrics with tally := metrics.tally.add tally }

end Metrics

/-- What changes as an expander works: the rest of its random stream and its account. -/
structure Progress where
  stream : RandomStream
  metrics : Metrics := {}
deriving DecidableEq

/-- What becomes of one token in a pass. -/
inductive Fate where
  /-- It is no symbol and stays. -/
  | copied
  /-- It has no rules and stays. -/
  | terminal
  /-- It has one rule, which replaces it. -/
  | replaced (rule : Rule)
  /-- A draw has chosen one of its rules. -/
  | chosen (rule : Rule)
  /-- A draw has matched none of its rules; it goes. -/
  | dropped
  /-- A draw has matched none of its rules; it stays. -/
  | kept

namespace Fate

/-- What stands for the token afterwards. -/
def output (t : Token) : Fate → Word
  | copied | terminal | kept => [t]
  | replaced rule | chosen rule => rule.right
  | dropped => []

/-- What the account gains. -/
def tally : Fate → Tally
  | copied | replaced _ => {}
  | terminal => { terminals := 1 }
  | chosen _ => { draws := 1 }
  | dropped => { draws := 1, dropped := 1 }
  | kept => { draws := 1, kept := 1 }

end Fate

/-- The first item at which the sum of the weights, taken from left to right and added to
`sum`, reaches the draw. -/
@[specialize] def firstReaching {α β : Type} [Add α] [LE α] [DecidableLE α]
    (weight : β → α) (draw : α) : (sum : α) → List β → Option β
  | _, [] => none
  | sum, item :: rest =>
      let sum := sum + weight item
      if draw ≤ sum then some item else firstReaching weight draw sum rest

/-- The alternative that a draw chooses. -/
def Alternatives.choose (alternatives : Alternatives) (draw : Float) : Option Rule :=
  firstReaching Rule.probability draw 0.0 alternatives.toList

/-- The rules of a system and how they are applied. -/
structure Expander where
  table : ProductionTable
  policy : NoMatchPolicy := .drop
  limits : ExpansionLimits := {}

namespace Expander

/-- What becomes of a token, and the random stream afterwards. Only a symbol with two
rules or more takes a draw. -/
def fate (expander : Expander) (t : Token) (stream : RandomStream) : Fate × RandomStream :=
  match t.letter? with
  | none => (.copied, stream)
  | some letter =>
      match expander.table.get? letter with
      | none => (.terminal, stream)
      | some ⟨rule, []⟩ => (.replaced rule, stream)
      | some alternatives =>
          let (draw, stream) := stream.unit
          match alternatives.choose draw, expander.policy with
          | some rule, _ => (.chosen rule, stream)
          | none, .drop => (.dropped, stream)
          | none, .keep => (.kept, stream)

/-- Replace the symbols in what is left of a word. `done` is the new word so far, the last
token first, and `length` its length. A token is counted before the limit is tested. -/
def pass (expander : Expander) :
    Word → (done : Word) → (length : Nat) → RandomStream → Tally →
      Except LimitError Word × RandomStream × Tally
  | [], done, _, stream, tally => (.ok done.reverse, stream, tally)
  | t :: rest, done, length, stream, tally =>
      let (fate, stream) := expander.fate t stream
      let output := fate.output t
      let tally := tally.add fate.tally
      let length := length + output.length
      if length ≤ expander.limits.wordLength then
        expander.pass rest (output.reverseAux done) length stream tally
      else (.error ⟨.wordLength, length, expander.limits.wordLength⟩, stream, tally)

/-- Replace the symbols of a word once, all in parallel. -/
def step (expander : Expander) (word : Word) (progress : Progress) :
    Except LimitError Word × Progress :=
  let (result, stream, tally) := expander.pass word [] 0 progress.stream {}
  (result, { stream, metrics := progress.metrics.count tally })

/-- Make a number of passes, each of which enters a length. -/
def iterate (expander : Expander) :
    Nat → Word → Progress → Except LimitError Word × Progress
  | 0, word, progress => (.ok word, progress)
  | n + 1, word, progress =>
      match expander.step word progress with
      | (.error error, progress) => (.error error, progress)
      | (.ok word, progress) =>
          expander.iterate n word
            { progress with metrics := progress.metrics.measure word.length }

/-- Expand a word by a number of passes under a fresh account. Too many iterations are
refused before too long a start. -/
def expand (expander : Expander) (iterations : Nat) (word : Word) (progress : Progress) :
    Except LimitError Word × Progress :=
  let progress := { progress with metrics := {} }
  if iterations > expander.limits.iterations then
    (.error ⟨.iterations, iterations, expander.limits.iterations⟩, progress)
  else if word.length > expander.limits.wordLength then
    (.error ⟨.wordLength, word.length, expander.limits.wordLength⟩, progress)
  else
    expander.iterate iterations word
      { progress with metrics := progress.metrics.measure word.length }

end Expander

end Lindenmayer
