import Lindenmayer.Proofs.Token.Text
import Lindenmayer.Token.Cursor

/-!
# What a cursor has before it

`Lexer.run` reads a text at once, a cursor one token at a time. Both see the same tokens:
what a cursor still has before it (`Cursor.ahead`) is a reading, and

* a cursor before the first token has the whole reading before it (`ahead_of_ofLexer`);
* moving on takes the first token off it (`ahead_of_advance`);
* moving on fails only before the last token of a broken reading (`ahead_of_advance_error`).
-/

namespace Lindenmayer

namespace Cursor

/-- The current token and what the lexer reads behind it; nothing at the end. -/
def ahead (cursor : Cursor) : Lexed :=
  if cursor.atEnd then ⟨[], .complete cursor.current.span.first⟩
  else ⟨cursor.current :: cursor.lexer.run.tokens, cursor.lexer.run.ending⟩

theorem ahead_of_inside {cursor : Cursor} (inside : cursor.atEnd = false) :
    cursor.ahead = ⟨cursor.current :: cursor.lexer.run.tokens, cursor.lexer.run.ending⟩ := by
  simp [ahead, inside]

/-- A token that was pulled and what is read behind it are what was read before. -/
theorem ahead_of_pull {lexer after : Lexer} {t : Spanned Token} {passed : List Token}
    (h : lexer.pull = (.ok t, after)) : (Cursor.mk t after passed).ahead = lexer.run := by
  unfold Lexer.pull at h
  split at h
  · next hnext =>
    cases h
    have hne := Lexer.ne_finish_of_next hnext
    rw [Lexer.run_of_token hnext]
    exact ahead_of_inside (beq_eq_false_iff_ne.mpr hne)
  · next hnext =>
    cases h
    rw [Lexer.run_of_none hnext]
    rfl

/-- A pull fails where a reading breaks off at once. -/
theorem run_of_pull_error {lexer after : Lexer} {error : LexicalError}
    (h : lexer.pull = (.error error, after)) :
    lexer.run = ⟨[], .broken error after.position⟩ := by
  unfold Lexer.pull at h
  split at h
  · next hnext =>
    cases h
    exact Lexer.run_of_error hnext
  · cases h

/-- Before the first token the whole reading is ahead. -/
theorem ahead_of_ofLexer {lexer : Lexer} {cursor : Cursor} (h : ofLexer lexer = .ok cursor) :
    cursor.ahead = lexer.run ∧ cursor.passed = [] := by
  unfold ofLexer at h
  split at h
  · next hpull =>
    cases h
    exact ⟨ahead_of_pull hpull, rfl⟩
  · cases h

/-- There is no cursor where the reading breaks off before its first token. -/
theorem run_of_ofLexer_error {lexer : Lexer} {error : LexicalError}
    (h : ofLexer lexer = .error error) :
    ∃ position, lexer.run = ⟨[], .broken error position⟩ := by
  unfold ofLexer at h
  split at h
  · cases h
  · next hpull =>
    cases h
    exact ⟨_, run_of_pull_error hpull⟩

/-- A complete reading has a cursor before it. -/
theorem exists_ofLexer {lexer : Lexer} {position : Position}
    (complete : lexer.run.ending = .complete position) :
    ∃ cursor, ofLexer lexer = .ok cursor := by
  cases h : ofLexer lexer with
  | ok cursor => exact ⟨cursor, rfl⟩
  | error error =>
      obtain ⟨place, hrun⟩ := run_of_ofLexer_error h
      rw [hrun] at complete
      cases complete

/-- Moving on takes the current token off what is ahead. -/
theorem ahead_of_advance {cursor after : Cursor} {t : Spanned Token}
    (inside : cursor.atEnd = false) (h : cursor.advance = (.ok t, after)) :
    t = cursor.current ∧ after.passed = t.value :: cursor.passed ∧
      cursor.ahead = ⟨t :: after.ahead.tokens, after.ahead.ending⟩ := by
  simp only [advance, inside, Bool.false_eq_true, if_false] at h
  split at h <;> cases h
  next hpull =>
  refine ⟨rfl, rfl, ?_⟩
  rw [ahead_of_inside inside, ahead_of_pull hpull]

/-- Moving on fails before the last token of a broken reading, and with its error. -/
theorem ahead_of_advance_error {cursor after : Cursor} {error : LexicalError}
    (h : cursor.advance = (.error error, after)) :
    ∃ position, cursor.ahead = ⟨[cursor.current], .broken error position⟩ := by
  cases ended : cursor.atEnd with
  | true =>
      rw [advance_of_atEnd ended] at h
      cases h
  | false =>
      simp only [advance, ended, Bool.false_eq_true, if_false] at h
      split at h <;> cases h
      next hpull =>
      exact ⟨_, by rw [ahead_of_inside ended, run_of_pull_error hpull]⟩

/-- Before the end of a complete reading the cursor can move on. -/
theorem exists_advance {cursor : Cursor} {position : Position}
    (complete : cursor.ahead.ending = .complete position) :
    ∃ t after, cursor.advance = (.ok t, after) := by
  rcases h : cursor.advance with ⟨error | t, after⟩
  · obtain ⟨place, hahead⟩ := ahead_of_advance_error h
    rw [hahead] at complete
    cases complete
  · exact ⟨t, after, rfl⟩

/-- The end of a text is a place between characters. -/
def Pointed (cursor : Cursor) : Prop :=
  cursor.atEnd = true → cursor.current.span = .point cursor.current.span.first

/-- Whatever was pulled, the end of the text is a place between characters. -/
theorem pointed_of_pull {lexer after : Lexer} {t : Spanned Token} {passed : List Token}
    (h : lexer.pull = (.ok t, after)) : (Cursor.mk t after passed).Pointed := by
  intro ended
  unfold Lexer.pull at h
  split at h
  · next hnext =>
    cases h
    have hne := Lexer.ne_finish_of_next hnext
    exact absurd (beq_iff_eq.mp ended) hne
  · cases h
    rfl

theorem pointed_of_ofLexer {lexer : Lexer} {cursor : Cursor} (h : ofLexer lexer = .ok cursor) :
    cursor.Pointed := by
  unfold ofLexer at h
  split at h
  · next hpull =>
    cases h
    exact pointed_of_pull hpull
  · cases h

theorem pointed_of_advance {cursor after : Cursor} {t : Spanned Token}
    (inside : cursor.atEnd = false) (h : cursor.advance = (.ok t, after)) : after.Pointed := by
  simp only [advance, inside, Bool.false_eq_true, if_false] at h
  split at h <;> cases h
  next hpull => exact pointed_of_pull hpull

end Cursor

end Lindenmayer
