import Lindenmayer.Token.Cursor

/-!
# Rule texts

A rule `X:=body` is a symbol, `:=` and a body up to the end of the text. Bodies are made of
symbols, direction marks and branches; a branch is a body between brackets, and branches
nest no deeper than `Limits.branchDepth`. `RuleReader.readBody` reads a body with one token
of lookahead and stops at the first token that has no place there; only branches recurse.
-/

namespace Lindenmayer

/-- What a text should have gone on with. -/
inductive Expected where
  | endOfRule
  | closingBracket
  /-- A token that words are made of. -/
  | wordToken
deriving DecidableEq

/-- The expected token in words. -/
def Expected.text : Expected → String
  | endOfRule => "end of rule"
  | closingBracket => "']'"
  | wordToken => "symbol, direction or bracket"

/-- Why a text is no rule. -/
inductive RuleError where
  | missingSymbol (found : Token) (span : Span)
  | missingAssignment (found : Token) (span : Span)
  | unclosedBranch (span : Span)
  | unmatchedClose (span : Span)
  | unexpectedToken (expected : Expected) (found : Token) (span : Span)
  | tooDeep (span : Span)
  | lexical (error : LexicalError)
deriving DecidableEq

namespace RuleError

/-- The place of the offending token; lexical errors name a character instead. -/
def span? : RuleError → Option Span
  | missingSymbol _ span => some span
  | missingAssignment _ span => some span
  | unclosedBranch span => some span
  | unmatchedClose span => some span
  | unexpectedToken _ _ span => some span
  | tooDeep span => some span
  | lexical _ => none

/-- The code of the error. -/
def code : RuleError → Code
  | missingSymbol _ _ => .missingSymbol
  | missingAssignment _ _ => .missingAssignment
  | unclosedBranch _ => .unclosedBranch
  | unmatchedClose _ => .unmatchedClose
  | unexpectedToken _ _ _ => .unexpectedToken
  | tooDeep _ => .nestingTooDeep
  | lexical error => error.code

/-- The error in words. -/
def message : RuleError → String
  | missingSymbol found span =>
      "Rule must start with a single symbol, found " ++ found.shown ++ " at " ++ span.text
  | missingAssignment found span =>
      "Missing ':=' after the rule symbol, found " ++ found.shown ++ " at " ++ span.text
  | unclosedBranch span => "Branch opened at " ++ span.text ++ " is never closed"
  | unmatchedClose span => "Unmatched ']' at " ++ span.text
  | unexpectedToken expected found span =>
      "Unexpected token: expected " ++ expected.text ++ ", found " ++ found.shown ++
        " at " ++ span.text
  | tooDeep span =>
      "Branch nesting deeper than " ++ toString Limits.branchDepth ++ " at " ++ span.text
  | lexical error => error.message

end RuleError

/-- A rule text in the course of being read. -/
structure RuleReader where
  cursor : Cursor
  /-- Branches open at the current token. -/
  depth : Nat := 0
  /-- Most branches open at once so far. -/
  deepest : Nat := 0

namespace RuleReader

/-- The token that the reader stands before. -/
def current (reader : RuleReader) : Spanned Token := reader.cursor.current

/-- A bound on how many tokens the reader can still move past. -/
def left (reader : RuleReader) : Nat := reader.cursor.left

/-- Readers that stand further on. -/
abbrev Beyond (reader : RuleReader) : Type := { after : RuleReader // after.left < reader.left }

/-- Readers that stand there or further on. -/
abbrev Onward (reader : RuleReader) : Type := { after : RuleReader // after.left ≤ reader.left }

/-- Move past the current token, which is not the end of the text. -/
def advance (reader : RuleReader) (inside : reader.cursor.atEnd = false) :
    Except RuleError (Spanned Token × reader.Beyond) :=
  match h : reader.cursor.advance with
  | (.ok t, cursor) => .ok (t, ⟨{ reader with cursor }, Cursor.left_of_advance inside h⟩)
  | (.error error, _) => .error (.lexical error)

/-- Move past the current token if it has the kind of `t`, and say whether it had. -/
def advancePast (reader : RuleReader) (t : Token) : Except RuleError (Bool × reader.Onward) :=
  match h : reader.cursor.advancePast t with
  | (.ok past, cursor) => .ok (past, ⟨{ reader with cursor }, Cursor.left_of_advancePast h⟩)
  | (.error error, _) => .error (.lexical error)

/-- Before the current token, which opens a branch, one branch more is open. -/
def enter (reader : RuleReader) : RuleReader :=
  { reader with depth := reader.depth + 1, deepest := max reader.deepest (reader.depth + 1) }

/-- One branch less is open. -/
def leave (reader : RuleReader) : RuleReader := { reader with depth := reader.depth - 1 }

/-- A text is inside while a token other than its end is current. -/
theorem atEnd_eq_false {reader : RuleReader} {t : Token} (h : reader.current.value = t)
    (inside : t ≠ .finish) : reader.cursor.atEnd = false := by
  rw [← h] at inside
  simpa [Cursor.atEnd, current] using inside

/-- A symbol is not the end of a text. -/
theorem atEnd_eq_false_of_isSymbol {reader : RuleReader}
    (h : reader.current.value.isSymbol = true) : reader.cursor.atEnd = false :=
  atEnd_eq_false rfl fun same => by rw [same] at h; cases h

mutual

/-- Read symbols, direction marks and branches, up to the first token that is none. -/
def readBody (reader : RuleReader) : Except RuleError reader.Onward :=
  match h : reader.current.value with
  | .symbol _ | .direction _ => do
      let (_, ⟨moved, further⟩) ← reader.advance (atEnd_eq_false h nofun)
      let ⟨after, onward⟩ ← moved.readBody
      return ⟨after, Nat.le_trans onward (Nat.le_of_lt further)⟩
  | .push => do
      let ⟨closed, further⟩ ← reader.readBranch h
      let ⟨after, onward⟩ ← closed.readBody
      return ⟨after, Nat.le_trans onward (Nat.le_of_lt further)⟩
  | .assign | .pop | .finish => .ok ⟨reader, Nat.le_refl _⟩
termination_by 2 * reader.left + 1

/-- Read a branch. Its opening bracket is moved past before the branches are counted, so an
error right behind a bracket too many is met first. -/
def readBranch (reader : RuleReader) (h : reader.current.value = .push) :
    Except RuleError reader.Beyond := do
  let (opening, ⟨inner, further⟩) ← reader.advance (atEnd_eq_false h nofun)
  if inner.depth ≥ Limits.branchDepth then throw (.tooDeep opening.span)
  let ⟨body, onward⟩ ← inner.enter.readBody
  let (closed, ⟨after, last⟩) ← body.leave.advancePast .pop
  if closed then
    return ⟨after, Nat.lt_of_le_of_lt (Nat.le_trans last onward) further⟩
  match after.current.value with
  | .finish => throw (.unclosedBranch opening.span)
  | found => throw (.unexpectedToken .closingBracket found after.current.span)
termination_by 2 * reader.left
decreasing_by
  have : inner.enter.left = inner.left := rfl
  omega

end

end RuleReader

/-- A rule text as its tokens. -/
structure RuleText where
  tokens : List Token
  /-- Most branches open at once. -/
  depth : Nat
deriving DecidableEq

/-- Read a whole rule. -/
def RuleReader.readRule (reader : RuleReader) : Except RuleError RuleText := do
  if h : reader.current.value.isSymbol then
    let (_, ⟨reader, _⟩) ← reader.advance (atEnd_eq_false_of_isSymbol h)
    let (assigned, ⟨reader, _⟩) ← reader.advancePast .assign
    unless assigned do
      throw (.missingAssignment reader.current.value reader.current.span)
    let ⟨reader, _⟩ ← reader.readBody
    match reader.current.value with
    | .finish => return ⟨reader.cursor.consumed, reader.deepest⟩
    | .pop => throw (.unmatchedClose reader.current.span)
    | found => throw (.unexpectedToken .endOfRule found reader.current.span)
  else throw (.missingSymbol reader.current.value reader.current.span)

/-- Read a text as a rule. -/
def RuleText.parse (alphabet : Alphabet) (text : String) : Except RuleError RuleText := do
  (checkLength text).mapError .lexical
  let cursor ← (Cursor.ofText alphabet text).mapError .lexical
  RuleReader.readRule { cursor }

/-- The text is a rule over the strict alphabet. -/
def isRule (text : String) : Bool := (RuleText.parse .strict text).isOk

end Lindenmayer
