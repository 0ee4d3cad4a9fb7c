import Lindenmayer.Token.Lexer

/-!
# Reading texts with counts

An analyzer reads one text after the other and holds the counts of the last one. It takes the
tokens from a lexer as they come and counts each before it asks for the next, so that it has
counts also of a text that breaks off.
-/

namespace Lindenmayer

/-- How many tokens of each kind a reading met before it ended. -/
structure TokenCounts where
  total : Nat := 0
  symbols : Nat := 0
  directions : Nat := 0
  pushes : Nat := 0
  pops : Nat := 0
  invalid : Nat := 0
deriving DecidableEq

namespace TokenCounts

/-- One token more. -/
def record (counts : TokenCounts) (t : Token) : TokenCounts :=
  let counts := { counts with total := counts.total + 1 }
  match t with
  | .symbol _ => { counts with symbols := counts.symbols + 1 }
  | .direction _ => { counts with directions := counts.directions + 1 }
  | .push => { counts with pushes := counts.pushes + 1 }
  | .pop => { counts with pops := counts.pops + 1 }
  | .assign | .finish => counts

end TokenCounts

/-- Reads texts, and knows what it has met in the last of them. -/
structure Analyzer where
  /-- Rules may use pitch and roll. -/
  extendedDirections : Bool := false
  counts : TokenCounts := {}

namespace Analyzer

/-- Read on behind the tokens read so far, and count them. -/
def scan (lexer : Lexer) (counts : TokenCounts) (found : Array (Spanned Token)) :
    Except LexicalError (List (Spanned Token)) × TokenCounts :=
  match h : lexer.next with
  | (none, _) => (.ok found.toList, counts)
  | (some (.error error), _) => (.error error, { counts with invalid := counts.invalid + 1 })
  | (some (.ok t), after) =>
      have := Lexer.length_next h
      scan after (counts.record t.value) (found.push t)
termination_by lexer.rest.length

/-- Read a text. What was counted before is forgotten, and a text that is too long is not read
at all. -/
def tokenize (analyzer : Analyzer) (alphabet : Alphabet) (text : String) :
    Except LexicalError (List (Spanned Token)) × Analyzer :=
  let analyzer := { analyzer with counts := {} }
  match checkLength text with
  | .error error => (.error error, analyzer)
  | .ok () =>
      let (result, counts) := scan (.ofText alphabet text) analyzer.counts #[]
      (result, { analyzer with counts })

/-- The alphabet of rules. -/
def ruleAlphabet (analyzer : Analyzer) : Alphabet :=
  if analyzer.extendedDirections then .extended else .strict

/-- Read a rule. -/
def tokenizeRule (analyzer : Analyzer) (text : String) :
    Except LexicalError (List (Spanned Token)) × Analyzer :=
  analyzer.tokenize analyzer.ruleAlphabet text

/-- Read a start text, which may use every direction. -/
def tokenizeSequence (analyzer : Analyzer) (text : String) :
    Except LexicalError (List (Spanned Token)) × Analyzer :=
  analyzer.tokenize .extended text

end Analyzer

end Lindenmayer
