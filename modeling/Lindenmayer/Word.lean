import Lindenmayer.Rule
import Lindenmayer.Token.Analyzer

/-!
# Words

The words that are expanded and that turtles walk along: token sequences. A start
word is read over the extended alphabet; its brackets are not matched, and `:=` has no
place in it.
-/

namespace Lindenmayer

/-- A sequence of tokens. -/
abbrev Word := List Token

namespace Word

/-- Read a start word. -/
def parse (text : String) : Except GrammarError Word := do
  let tokens ← (({} : Analyzer).tokenizeSequence text).1.mapError fun error =>
    .rule (.lexical error)
  match tokens.find? fun t => t.value = .assign with
  | some t => throw (.rule (.unexpectedToken .wordToken t.value t.span))
  | none =>
      if tokens.isEmpty then throw .emptyStart
      return tokens.map Spanned.value

/-- The word as text. -/
def text (word : Word) : String := String.ofList (word.flatMap Token.chars)

/-- How often a symbol stands in the word. -/
def countSymbol (word : Word) (letter : Char) : Nat := word.count (.symbol letter)

/-- Numbers of opening and of closing brackets. -/
def bracketCounts (word : Word) : Nat × Nat := (word.count .push, word.count .pop)

end Word

end Lindenmayer
