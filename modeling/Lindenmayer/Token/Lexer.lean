import Lindenmayer.Code
import Lindenmayer.Limits
import Lindenmayer.Position
import Lindenmayer.Text.Blank
import Lindenmayer.Token

/-!
# Lexing

A text is read from left to right. Blanks separate tokens and are otherwise
skipped; the first character that starts no token ends the reading. `Lexer.next`
reads one token, `Lexer.run` all of them, and `lex` is the reading of a whole text.
-/

namespace Lindenmayer

/-- Why a text has no token list. -/
inductive LexicalError where
  /-- A character that starts no token of the alphabet. -/
  | invalidCharacter (character : Char) (position : Position)
  /-- A text longer than `Limits.ruleLength`. -/
  | tooLong (length : Nat)
deriving DecidableEq

namespace LexicalError

/-- The place of the offending character, if there is one. -/
def position? : LexicalError → Option Position
  | invalidCharacter _ position => some position
  | tooLong _ => none

/-- The code of the error. -/
def code : LexicalError → Code
  | invalidCharacter _ _ => .invalidCharacter
  | tooLong _ => .ruleTooLong

/-- The error in words. -/
def message : LexicalError → String
  | invalidCharacter character position =>
      "Invalid character: '" ++ character.toString ++ "' at line " ++
        toString position.line ++ ", column " ++ toString position.column
  | tooLong length =>
      "Rule too long: " ++ toString length ++ " characters (max " ++
        toString Limits.ruleLength ++ ")"

end LexicalError

/-- The token that a text without leading blanks starts with, and the text after it;
otherwise the character that is in the way. -/
def Alphabet.firstToken (alphabet : Alphabet) (c : Char) (rest : List Char) :
    Except Char (Token × List Char) :=
  if c.isAlpha then .ok (.symbol c, rest)
  else if c = ':' then
    match rest with
    | '=' :: rest => .ok (.assign, rest)
    | _ => .error c
  else if c = '[' then .ok (.push, rest)
  else if c = ']' then .ok (.pop, rest)
  else
    match Direction.ofMark? c with
    | some turn => if alphabet.accepts turn then .ok (.direction turn, rest) else .error c
    | none => .error c

/-- A token and what follows it make up the text. -/
theorem Alphabet.chars_append_of_firstToken {alphabet : Alphabet} {c : Char}
    {rest tail : List Char} {t : Token} (h : alphabet.firstToken c rest = .ok (t, tail)) :
    t.chars ++ tail = c :: rest := by
  unfold firstToken at h
  split at h
  · cases h; rfl
  split at h
  · split at h
    · cases h; subst_vars; rfl
    · cases h
  split at h
  · cases h; subst_vars; rfl
  split at h
  · cases h; subst_vars; rfl
  split at h
  · next turn hd =>
    split at h
    · cases h
      simp [Token.chars, Direction.mark_eq_of_ofMark? hd]
    · cases h
  · cases h

/-- A text is shorter after its first token. -/
theorem Alphabet.length_of_firstToken {alphabet : Alphabet} {c : Char}
    {rest tail : List Char} {t : Token} (h : alphabet.firstToken c rest = .ok (t, tail)) :
    tail.length ≤ rest.length := by
  have whole := congrArg List.length (chars_append_of_firstToken h)
  have nonempty : 1 ≤ t.chars.length := by
    cases t <;> simp_all [Token.chars]
    unfold firstToken at h
    repeat' split at h
    all_goals cases h
  simp at whole
  omega

/-- The place and the text after the blanks that a text starts with. -/
def skipBlanks (position : Position) : List Char → Position × List Char
  | [] => (position, [])
  | c :: rest =>
      if Text.isBlank c then skipBlanks (position.advance c) rest
      else (position, c :: rest)

theorem length_skipBlanks (position : Position) (cs : List Char) :
    (skipBlanks position cs).2.length ≤ cs.length := by
  induction cs generalizing position with
  | nil => simp [skipBlanks]
  | cons c rest ih =>
      rw [skipBlanks]
      split
      · have := ih (position.advance c)
        simp only [List.length_cons]
        omega
      · simp

/-- A text in the course of being read. `position` is the place just past the last
character read. -/
structure Lexer where
  alphabet : Alphabet
  rest : List Char
  position : Position := .start
  /-- An error has been met, so nothing more is read. -/
  failed : Bool := false

namespace Lexer

/-- The reading of a text from its start. -/
def ofText (alphabet : Alphabet) (text : String) : Lexer :=
  { alphabet, rest := text.toList }

/-- The next token or error, `none` at the end of the text and after an error. A colon
without its equals sign has been read when it is found wanting; other characters that
start no token have not. -/
def next (lexer : Lexer) : Option (Except LexicalError (Spanned Token)) × Lexer :=
  if lexer.failed then (none, lexer)
  else
    match skipBlanks lexer.position lexer.rest with
    | (position, []) => (none, { lexer with position, rest := [] })
    | (position, c :: rest) =>
        match lexer.alphabet.firstToken c rest with
        | .ok (t, tail) =>
            let last := position.advanceAll t.chars
            (some (.ok ⟨t, position, last⟩), { lexer with position := last, rest := tail })
        | .error _ =>
            (some (.error (.invalidCharacter c position)),
              { lexer with
                position := if c = ':' then position.advance c else position
                rest := c :: rest
                failed := true })

/-- The text after a token is shorter. -/
theorem length_next {lexer after : Lexer} {t : Spanned Token}
    (h : lexer.next = (some (.ok t), after)) : after.rest.length < lexer.rest.length := by
  unfold next at h
  split at h
  · cases h
  split at h
  · cases h
  next c rest skipped =>
  split at h
  · next t' tail first =>
    have shorter := Alphabet.length_of_firstToken first
    have blanks := length_skipBlanks lexer.position lexer.rest
    rw [skipped] at blanks
    cases h
    simp at blanks ⊢
    omega
  · cases h

end Lexer

/-- What follows the tokens of a text. -/
inductive Ending where
  /-- The end of the text. -/
  | complete (position : Position)
  /-- An error, with the place up to which the text was read. -/
  | broken (error : LexicalError) (position : Position)
deriving DecidableEq

/-- The place up to which a text was read. -/
def Ending.position : Ending → Position
  | complete position => position
  | broken _ position => position

/-- A text as its tokens, up to its end or its first error. -/
structure Lexed where
  tokens : List (Spanned Token)
  ending : Ending
deriving DecidableEq

/-- Read the text to its end or first error. -/
def Lexer.run (lexer : Lexer) : Lexed :=
  match h : lexer.next with
  | (none, after) => ⟨[], .complete after.position⟩
  | (some (.error error), after) => ⟨[], .broken error after.position⟩
  | (some (.ok t), after) =>
      have := Lexer.length_next h
      let tail := after.run
      ⟨t :: tail.tokens, tail.ending⟩
termination_by lexer.rest.length

/-- The reading of a text of any length. -/
def lex (alphabet : Alphabet) (text : String) : Lexed := (Lexer.ofText alphabet text).run

namespace Lexed

/-- The tokens of a text without errors. -/
def toExcept (lexed : Lexed) : Except LexicalError (List (Spanned Token)) :=
  match lexed.ending with
  | .complete _ => .ok lexed.tokens
  | .broken error _ => .error error

/-- The tokens without their places. -/
def values (lexed : Lexed) : List Token := lexed.tokens.map Spanned.value

end Lexed

/-- Refuse a text longer than `Limits.ruleLength`. -/
def checkLength (text : String) : Except LexicalError Unit :=
  if text.length ≤ Limits.ruleLength then .ok () else .error (.tooLong text.length)

/-- The tokens of a text that is not too long. -/
def tokenize (alphabet : Alphabet) (text : String) :
    Except LexicalError (List (Spanned Token)) := do
  checkLength text
  (lex alphabet text).toExcept

end Lindenmayer
