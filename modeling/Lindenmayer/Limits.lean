/-!
# Resource limits

The fixed bounds under which rules are read, words are expanded, turtles walk
and journals are kept. Callers may ask for tighter bounds, never for looser ones.
-/

namespace Lindenmayer.Limits

/-- Longest rule or start text, in characters. -/
def ruleLength : Nat := 4096

/-- Deepest nesting of branches inside one rule. -/
def branchDepth : Nat := 256

/-- Most passes of one expansion. -/
def iterations : Nat := 8

/-- Longest word that an expansion may build, in tokens. -/
def wordLength : Nat := 5000000

/-- Most alternatives that one symbol may have. -/
def rulesPerSymbol : Nat := 64

/-- Most branches that may be open at once while a turtle walks. -/
def branchStack : Nat := 100000

/-- Most events that a memory log holds. -/
def journalSize : Nat := 1000

/-- Longest journal message, in bytes of UTF-8. -/
def messageBytes : Nat := 2048

/-- Number of the quietest level that a preference may choose. -/
def levelFloor : Nat := 0

/-- Where the bounds are written down. -/
def source : String := "Generated from config/development.toml"

/-- Every bound, from the text limits to the journal's. -/
def all : List Nat :=
  [ruleLength, branchDepth, iterations, wordLength, rulesPerSymbol, branchStack,
    journalSize, messageBytes, levelFloor]

end Lindenmayer.Limits
