import Lindenmayer.Token.Lexer

/-!
# Reading tokens with one token of lookahead

A cursor stands before the current token of a text, the last one it has read. Moving on
reads the token after it, so an error in the text is met when the cursor would have to
stand behind the last token before it; the cursor then stays. It meets an error once:
moving on again leads to the end of what was read.
-/

namespace Lindenmayer

/-- The next token or error; at the end of the text, the end as a token. -/
def Lexer.pull (lexer : Lexer) : Except LexicalError (Spanned Token) × Lexer :=
  match lexer.next with
  | (some result, after) => (result, after)
  | (none, after) => (.ok ⟨.finish, .point after.position⟩, after)

/-- A place among the tokens of a text. At the end the current token is `finish`. -/
structure Cursor where
  current : Spanned Token
  /-- Reads what stands behind the current token. -/
  lexer : Lexer
  /-- The tokens moved past, the latest first. -/
  passed : List Token := []

namespace Cursor

/-- The cursor before the first token; an error before any token is an error here. -/
def ofLexer (lexer : Lexer) : Except LexicalError Cursor :=
  match lexer.pull with
  | (.ok current, lexer) => .ok { current, lexer }
  | (.error error, _) => .error error

/-- The cursor before the first token of a text. -/
def ofText (alphabet : Alphabet) (text : String) : Except LexicalError Cursor :=
  ofLexer (.ofText alphabet text)

/-- All tokens have been moved past. -/
def atEnd (cursor : Cursor) : Bool := cursor.current.value == .finish

/-- The tokens moved past, in order. -/
def consumed (cursor : Cursor) : List Token := cursor.passed.reverse

/-- Move past the current token, which is the result. At the end nothing moves. -/
def advance (cursor : Cursor) : Except LexicalError (Spanned Token) × Cursor :=
  if cursor.atEnd then (.ok cursor.current, cursor)
  else
    match cursor.lexer.pull with
    | (.ok current, lexer) =>
        (.ok cursor.current,
          { current, lexer, passed := cursor.current.value :: cursor.passed })
    | (.error error, lexer) => (.error error, { cursor with lexer })

/-- The current token has the kind of `t`. -/
def check (cursor : Cursor) (t : Token) : Bool := cursor.current.value.sameKind t

/-- Move past the current token if it satisfies `p`. -/
def advanceIf (cursor : Cursor) (p : Token → Bool) :
    Except LexicalError (Option (Spanned Token)) × Cursor :=
  if p cursor.current.value then
    let (moved, after) := cursor.advance
    (moved.map some, after)
  else (.ok none, cursor)

/-- Move past the current token if it has the kind of `t`, and say whether it had. -/
def advancePast (cursor : Cursor) (t : Token) : Except LexicalError Bool × Cursor :=
  if cursor.check t then
    let (moved, after) := cursor.advance
    (moved.map fun _ => true, after)
  else (.ok false, cursor)

/-- A bound on how often the cursor can still move. -/
def left (cursor : Cursor) : Nat := if cursor.atEnd then 0 else cursor.lexer.rest.length + 1

/-- Nothing moves at the end. -/
theorem advance_of_atEnd {cursor : Cursor} (h : cursor.atEnd = true) :
    cursor.advance = (.ok cursor.current, cursor) := by
  simp [advance, h]

/-- An error leaves the cursor where it stands. -/
theorem current_of_advance_error {cursor after : Cursor} {error : LexicalError}
    (h : cursor.advance = (.error error, after)) :
    after.current = cursor.current ∧ after.passed = cursor.passed := by
  unfold advance at h
  split at h
  · cases h
  · split at h <;> cases h
    exact ⟨rfl, rfl⟩

/-- Before the end, moving on brings the end nearer. -/
theorem left_of_advance {cursor after : Cursor} {t : Spanned Token}
    (inside : cursor.atEnd = false) (h : cursor.advance = (.ok t, after)) :
    after.left < cursor.left := by
  have bound : cursor.left = cursor.lexer.rest.length + 1 := by simp [left, inside]
  rw [bound]
  simp only [advance, inside, Bool.false_eq_true, if_false] at h
  split at h <;> cases h
  next current lexer pulled =>
  unfold Lexer.pull at pulled
  split at pulled <;> cases pulled
  · next read =>
    have shorter := Lexer.length_next read
    unfold left
    split
    · exact Nat.succ_pos _
    · exact Nat.succ_lt_succ shorter
  · exact Nat.succ_pos _

/-- Moving on, where there is reason to, does not lead back. -/
theorem left_of_advancePast {cursor after : Cursor} {t : Token} {past : Bool}
    (h : cursor.advancePast t = (.ok past, after)) : after.left ≤ cursor.left := by
  unfold advancePast at h
  split at h
  · cases moved : cursor.advance with
    | mk result cursor' =>
        rw [moved] at h
        cases result with
        | error error => cases h
        | ok current =>
            cases h
            cases ended : cursor.atEnd with
            | false => exact Nat.le_of_lt (left_of_advance ended moved)
            | true =>
                rw [advance_of_atEnd ended] at moved
                cases moved
                exact Nat.le_refl _
  · cases h
    exact Nat.le_refl _

end Cursor

end Lindenmayer
