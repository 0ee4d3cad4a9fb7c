import Lindenmayer.Decimal.Format
import Lindenmayer.Rule.Text

/-!
# Rules

A rule replaces a symbol by the tokens of its body, and has a probability that counts where
the symbol has other rules. A rule text gives the symbol and the body.
-/

namespace Lindenmayer

/-- Why a rule or a start text is refused. -/
inductive GrammarError where
  | rule (error : RuleError)
  | probabilityOutside (probability : Float)
  | tooManyAlternatives (symbol : Char)
  | emptyStart

namespace GrammarError

/-- The code of the error. -/
def code : GrammarError → Code
  | rule error => error.code
  | probabilityOutside _ => .invalidProbability
  | tooManyAlternatives _ => .tooManyAlternatives
  | emptyStart => .emptyStart

/-- The error in words. -/
def message : GrammarError → String
  | rule error => error.message
  | probabilityOutside probability =>
      "Probability " ++ Decimal.text probability ++ " is outside [0, 1]"
  | tooManyAlternatives symbol =>
      "Symbol '" ++ symbol.toString ++ "' has more than " ++
        toString Limits.rulesPerSymbol ++ " alternatives"
  | emptyStart => "Start sequence is empty"

end GrammarError

/-- One production, taken with `probability` where its symbol has others. -/
structure Rule where
  left : Char
  right : List Token
  probability : Float
deriving BEq

namespace Rule

/-- The rule of a rule text. -/
def ofText (text : RuleText) (probability : Float) : Rule where
  left := (text.tokens.head?.bind Token.letter?).getD '\x00'
  right := text.tokens.drop 2
  probability := probability

/-- The body as text. -/
def rightText (rule : Rule) : String := String.ofList (rule.right.flatMap Token.chars)

/-- The rule as text. -/
def text (rule : Rule) : String := rule.left.toString ++ ":=" ++ rule.rightText

/-- The probability is in `[0, 1]`; what is not a number is not. -/
def inUnitInterval (p : Float) : Bool := 0.0 ≤ p && p ≤ 1.0

/-- Read a rule with its probability, which is looked at first. -/
def parse (alphabet : Alphabet) (text : String) (probability : Float) :
    Except GrammarError Rule := do
  unless inUnitInterval probability do throw (.probabilityOutside probability)
  let text ← (RuleText.parse alphabet text).mapError .rule
  return ofText text probability

end Rule

end Lindenmayer
