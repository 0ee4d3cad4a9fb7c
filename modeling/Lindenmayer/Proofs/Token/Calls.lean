import Lindenmayer.Proofs.Token.Lookahead

/-!
# A cursor under any calls

A cursor is called to move on, to move on if its token is a wanted one, or to say of which kind
its token is. `Cursor.Account` says how a cursor stands to the reading of its text, and which
errors its calls have met:

* what it has moved past and what is ahead of it are the tokens of the text;
* as long as no error was met, the reading ends ahead of it as the text does;
* once the error was met, the lexer has failed, so that nothing more is read.

A call that tries to move ends as `advance` does and any other changes nothing
(`call_of_tries`, `call_of_not_tries`), so each call keeps the account (`Account.call`), and so
do any (`Account.run`).
-/

namespace Lindenmayer

namespace Lexer

/-- A lexer that has failed reads nothing more. -/
theorem next_of_failed {lexer : Lexer} (h : lexer.failed = true) :
    lexer.next = (none, lexer) := by
  rw [next, if_pos h]

theorem pull_of_failed {lexer : Lexer} (h : lexer.failed = true) :
    lexer.pull = (.ok ⟨.finish, .point lexer.position⟩, lexer) := by
  rw [pull, next_of_failed h]

/-- With an error the lexer has failed. -/
theorem failed_of_next_error {lexer after : Lexer} {error : LexicalError}
    (h : lexer.next = (some (.error error), after)) : after.failed = true := by
  unfold next at h
  split at h
  · cases h
  split at h
  · cases h
  split at h <;> cases h
  rfl

theorem failed_of_pull_error {lexer after : Lexer} {error : LexicalError}
    (h : lexer.pull = (.error error, after)) : after.failed = true := by
  unfold pull at h
  split at h
  · next hnext =>
    cases h
    exact failed_of_next_error hnext
  · cases h

end Lexer

namespace Cursor

/-- What a cursor can be called to do. -/
inductive Call where
  | advance
  | check (t : Token)
  | advanceIf (p : Token → Bool)
  | advancePast (t : Token)

/-- What a cursor answers. -/
inductive Reply where
  | token (t : Spanned Token)
  | perhaps (t : Option (Spanned Token))
  | verdict (b : Bool)
deriving DecidableEq

/-- The answer to a call, and the cursor after it. -/
def call (cursor : Cursor) : Call → Except LexicalError Reply × Cursor
  | .advance =>
      let (moved, after) := cursor.advance
      (moved.map .token, after)
  | .check t => (.ok (.verdict (cursor.check t)), cursor)
  | .advanceIf p =>
      let (moved, after) := cursor.advanceIf p
      (moved.map .perhaps, after)
  | .advancePast t =>
      let (past, after) := cursor.advancePast t
      (past.map .verdict, after)

/-- The call is one to move on from the current token. -/
def Call.tries (cursor : Cursor) : Call → Bool
  | .advance => true
  | .check _ => false
  | .advanceIf p => p cursor.current.value
  | .advancePast t => cursor.check t

/-- The cursor after some calls. -/
def after (cursor : Cursor) (calls : List Call) : Cursor :=
  calls.foldl (fun here next => (here.call next).2) cursor

/-- The error of an answer, if it is one. -/
def Reply.errors : Except LexicalError α → List LexicalError
  | .error error => [error]
  | .ok _ => []

/-- The errors that some calls meet. -/
def errors (cursor : Cursor) : List Call → List LexicalError
  | [] => []
  | next :: calls => Reply.errors (cursor.call next).1 ++ errors (cursor.call next).2 calls

/-- The current token, unless it is the end. -/
def pending (cursor : Cursor) : List Token :=
  if cursor.atEnd then [] else [cursor.current.value]

/-- The cursor stands before the last of the tokens. -/
def AtLast (all : List Token) (cursor : Cursor) : Prop :=
  cursor.consumed ++ [cursor.current.value] = all

/-- Among the calls is one to move past the last of the tokens. -/
def Attempted (all : List Token) (cursor : Cursor) (calls : List Call) : Prop :=
  ∃ earlier next later, calls = earlier ++ next :: later ∧
    next.tries (cursor.after earlier) = true ∧ (cursor.after earlier).AtLast all

section

variable {cursor : Cursor}

/-- A call that tries to move ends as `advance` does. -/
theorem call_of_tries {next : Call} (h : next.tries cursor = true) :
    ∃ reply : Spanned Token → Reply,
      cursor.call next = (cursor.advance.1.map reply, cursor.advance.2) := by
  cases next with
  | advance => exact ⟨.token, rfl⟩
  | check t => cases h
  | advanceIf p =>
      have hp : p cursor.current.value = true := h
      refine ⟨fun t => .perhaps (some t), ?_⟩
      rw [call, advanceIf, if_pos hp]
      rcases cursor.advance with ⟨_ | _, _⟩ <;> rfl
  | advancePast t =>
      have ht : cursor.check t = true := h
      refine ⟨fun _ => .verdict true, ?_⟩
      rw [call, advancePast, if_pos ht]
      rcases cursor.advance with ⟨_ | _, _⟩ <;> rfl

/-- A call that does not try to move changes nothing. -/
theorem call_of_not_tries {next : Call} (h : next.tries cursor = false) :
    ∃ reply, cursor.call next = (.ok reply, cursor) := by
  cases next with
  | advance => cases h
  | check t => exact ⟨_, rfl⟩
  | advanceIf p =>
      have hp : ¬ p cursor.current.value = true := Bool.eq_false_iff.1 h
      exact ⟨.perhaps none, by rw [call, advanceIf, if_neg hp]; rfl⟩
  | advancePast t =>
      have ht : ¬ cursor.check t = true := Bool.eq_false_iff.1 h
      exact ⟨.verdict false, by rw [call, advancePast, if_neg ht]; rfl⟩

/-- Errors are met by trying to move. -/
theorem call_eq_error_iff {next : Call} {error : LexicalError} :
    (cursor.call next).1 = .error error ↔
      next.tries cursor = true ∧ cursor.advance.1 = .error error := by
  cases htries : next.tries cursor with
  | true =>
      obtain ⟨reply, hcall⟩ := call_of_tries htries
      rw [hcall]
      cases cursor.advance.1 <;> simp [Except.map]
  | false =>
      obtain ⟨reply, hcall⟩ := call_of_not_tries htries
      simp [hcall]

/-- At the end no call changes anything. -/
theorem call_of_atEnd (ended : cursor.atEnd = true) (next : Call) :
    (cursor.call next).2 = cursor := by
  cases htries : next.tries cursor with
  | true =>
      obtain ⟨reply, hcall⟩ := call_of_tries htries
      rw [hcall, advance_of_atEnd ended]
  | false =>
      obtain ⟨reply, hcall⟩ := call_of_not_tries htries
      rw [hcall]

/-- A call that meets an error leaves the cursor where it stands. -/
theorem frame_of_call_error {next : Call} {error : LexicalError}
    (h : (cursor.call next).1 = .error error) :
    (cursor.call next).2.consumed = cursor.consumed ∧
      (cursor.call next).2.current = cursor.current := by
  obtain ⟨htries, hstop⟩ := call_eq_error_iff.1 h
  obtain ⟨reply, hcall⟩ := call_of_tries htries
  have hadvance : cursor.advance = (.error error, cursor.advance.2) := by rw [← hstop]
  obtain ⟨hcurrent, hpassed⟩ := current_of_advance_error hadvance
  rw [hcall, consumed, consumed, hpassed]
  exact ⟨rfl, hcurrent⟩

/-- Before the end, a call that tries to move and meets no error moves past the current token. -/
theorem consumed_of_call {next : Call} {reply : Reply} (htries : next.tries cursor = true)
    (inside : cursor.atEnd = false) (h : (cursor.call next).1 = .ok reply) :
    (cursor.call next).2.consumed = cursor.consumed ++ [cursor.current.value] := by
  obtain ⟨answer, hcall⟩ := call_of_tries htries
  rcases hmove : cursor.advance with ⟨error | t, after⟩
  · rw [hcall, hmove] at h
    cases h
  · obtain ⟨rfl, hpassed, -⟩ := ahead_of_advance inside hmove
    rw [hcall, hmove, consumed, hpassed, List.reverse_cons, consumed]

/-- What is ahead of a cursor begins with its current token. -/
theorem pending_prefix_ahead : cursor.pending <+: cursor.ahead.values := by
  cases ended : cursor.atEnd with
  | true =>
      rw [pending, if_pos ended]
      exact List.nil_prefix
  | false =>
      rw [pending, if_neg (Bool.eq_false_iff.1 ended), ahead_of_inside ended]
      exact ⟨_, rfl⟩

/-- Nothing is ahead at the end only. -/
theorem ahead_values_eq_nil_iff : cursor.ahead.values = [] ↔ cursor.atEnd = true := by
  cases ended : cursor.atEnd with
  | true => simp [ahead, ended, Lexed.values]
  | false => simp [ahead, ended, Lexed.values]

theorem after_cons (next : Call) (calls : List Call) :
    cursor.after (next :: calls) = (cursor.call next).2.after calls := rfl

theorem errors_append (earlier later : List Call) :
    cursor.errors (earlier ++ later) =
      cursor.errors earlier ++ (cursor.after earlier).errors later := by
  induction earlier generalizing cursor with
  | nil => rfl
  | cons next earlier ih =>
      rw [List.cons_append, errors, errors, ih, List.append_assoc, after_cons]

/-- Where calls met an error, one of them did. -/
theorem exists_error_of_errors {calls : List Call} (h : cursor.errors calls ≠ []) :
    ∃ earlier next later error, calls = earlier ++ next :: later ∧
      ((cursor.after earlier).call next).1 = .error error := by
  induction calls generalizing cursor with
  | nil => exact absurd rfl h
  | cons next calls ih =>
      cases hreply : (cursor.call next).1 with
      | error error => exact ⟨[], next, calls, error, rfl, hreply⟩
      | ok reply =>
          rw [errors, hreply] at h
          obtain ⟨earlier, later, rest, error, hcalls, herror⟩ := ih h
          exact ⟨next :: earlier, later, rest, error, by rw [hcalls]; rfl, herror⟩

/-- A cursor whose lexer has failed moves on to the end, without an error. -/
theorem advance_of_failed (h : cursor.lexer.failed = true) :
    ∃ t after, cursor.advance = (.ok t, after) ∧ after.lexer.failed = true := by
  cases ended : cursor.atEnd with
  | true => exact ⟨_, _, advance_of_atEnd ended, h⟩
  | false =>
      rw [advance, if_neg (Bool.eq_false_iff.1 ended), Lexer.pull_of_failed h]
      exact ⟨_, _, rfl, h⟩

/-- Behind a lexer that has failed, the current token is the last one. -/
theorem ahead_of_failed (h : cursor.lexer.failed = true) (inside : cursor.atEnd = false) :
    cursor.ahead = ⟨[cursor.current], .complete cursor.lexer.position⟩ := by
  rw [ahead_of_inside inside, Lexer.run_of_none (Lexer.next_of_failed h)]

/-- An error leaves the lexer failed. -/
theorem failed_of_advance_error {after : Cursor} {error : LexicalError}
    (h : cursor.advance = (.error error, after)) : after.lexer.failed = true := by
  unfold advance at h
  split at h
  · cases h
  · split at h <;> cases h
    next hpull => exact Lexer.failed_of_pull_error hpull

end

/-- How a cursor stands to the reading of its text, once the errors `met` were met. -/
structure Account (lexed : Lexed) (met : List LexicalError) (cursor : Cursor) : Prop where
  values : cursor.consumed ++ cursor.ahead.values = lexed.values
  errors : met = [] ∧ cursor.ahead.ending = lexed.ending ∨
    ∃ error position, met = [error] ∧ lexed.ending = .broken error position ∧
      cursor.lexer.failed = true

namespace Account

variable {lexed : Lexed} {met : List LexicalError} {cursor : Cursor}

theorem of_ofLexer {lexer : Lexer} (h : ofLexer lexer = .ok cursor) :
    Account lexer.run [] cursor := by
  obtain ⟨hahead, hpassed⟩ := ahead_of_ofLexer h
  refine ⟨?_, .inl ⟨rfl, by rw [hahead]⟩⟩
  rw [consumed, hpassed, hahead]
  rfl

/-- Moving on keeps the account. -/
theorem advance {after : Cursor} {t : Spanned Token} (h : Account lexed met cursor)
    (hmove : cursor.advance = (.ok t, after)) : Account lexed met after := by
  cases ended : cursor.atEnd with
  | true =>
      rw [advance_of_atEnd ended] at hmove
      cases hmove
      exact h
  | false =>
      obtain ⟨-, hpassed, hahead⟩ := ahead_of_advance ended hmove
      refine ⟨?_, ?_⟩
      · rw [← h.values, hahead, consumed, hpassed, List.reverse_cons, List.append_assoc]
        rfl
      · rcases h.errors with ⟨hmet, hending⟩ | ⟨error, position, hmet, hbroken, hfailed⟩
        · exact .inl ⟨hmet, by rw [← hending, hahead]⟩
        · obtain ⟨t', after', hmove', hfailed'⟩ := advance_of_failed hfailed
          rw [hmove] at hmove'
          cases hmove'
          exact .inr ⟨error, position, hmet, hbroken, hfailed'⟩

/-- The first error is that of the text, met before the last token. -/
theorem of_advance_error {error : LexicalError} (h : Account lexed met cursor)
    (herror : cursor.advance.1 = .error error) :
    met = [] ∧ (∃ position, lexed.ending = .broken error position) ∧
      cursor.AtLast lexed.values := by
  have hstop : cursor.advance = (.error error, cursor.advance.2) := by rw [← herror]
  obtain ⟨position, hahead⟩ := ahead_of_advance_error hstop
  rcases h.errors with ⟨hmet, hending⟩ | ⟨_, _, _, _, hfailed⟩
  · refine ⟨hmet, ⟨position, by rw [← hending, hahead]⟩, ?_⟩
    rw [AtLast, ← h.values, hahead]
    rfl
  · obtain ⟨t, after, hmove, -⟩ := advance_of_failed hfailed
    rw [hmove] at herror
    cases herror

/-- An error that was not met is met in moving past the last token. -/
theorem advance_error {error : LexicalError} {position : Position}
    (h : Account lexed [] cursor) (hbroken : lexed.ending = .broken error position)
    (hlast : cursor.AtLast lexed.values) : cursor.advance.1 = .error error := by
  have hending : cursor.ahead.ending = .broken error position := by
    rcases h.errors with ⟨-, hending⟩ | ⟨_, _, hmet, -⟩
    · rw [hending, hbroken]
    · cases hmet
  have hvalues : cursor.ahead.values = [cursor.current.value] :=
    List.append_cancel_left (h.values.trans hlast.symm)
  rcases hmove : cursor.advance with ⟨other | t, after⟩
  · obtain ⟨place, hahead⟩ := ahead_of_advance_error hmove
    rw [hahead] at hending
    cases hending
    rfl
  · -- the cursor would have moved to the end, where no error is ahead
    have inside : cursor.atEnd = false := by
      rw [← Bool.not_eq_true, ← ahead_values_eq_nil_iff, hvalues]
      exact List.cons_ne_nil _ _
    obtain ⟨-, -, hahead⟩ := ahead_of_advance inside hmove
    rw [hahead] at hvalues hending
    have hnil : after.ahead.values = [] := (List.cons.inj hvalues).2
    have ended : after.atEnd = true := ahead_values_eq_nil_iff.1 hnil
    simp [ahead, ended] at hending

/-- The error that is met goes into the account, and the last token stays ahead. -/
theorem stop {after : Cursor} {error : LexicalError} (h : Account lexed met cursor)
    (hstop : cursor.advance = (.error error, after)) : Account lexed (met ++ [error]) after := by
  obtain ⟨rfl, ⟨position, hbroken⟩, hlast⟩ := h.of_advance_error (by rw [hstop])
  obtain ⟨hcurrent, hpassed⟩ := current_of_advance_error hstop
  have hfailed := failed_of_advance_error hstop
  have inside : after.atEnd = false := by
    rw [atEnd, hcurrent, ← atEnd, ← Bool.not_eq_true]
    intro ended
    rw [advance_of_atEnd ended] at hstop
    cases hstop
  refine ⟨?_, .inr ⟨error, position, rfl, hbroken, hfailed⟩⟩
  rw [ahead_of_failed hfailed inside, hcurrent, consumed, hpassed]
  exact hlast

/-- A call keeps the account. -/
theorem call (h : Account lexed met cursor) (next : Call) :
    Account lexed (met ++ Reply.errors (cursor.call next).1) (cursor.call next).2 := by
  cases htries : next.tries cursor with
  | false =>
      obtain ⟨reply, hcall⟩ := call_of_not_tries htries
      rw [hcall, Reply.errors, List.append_nil]
      exact h
  | true =>
      obtain ⟨reply, hcall⟩ := call_of_tries htries
      rcases hmove : cursor.advance with ⟨error | t, after⟩
      · rw [hcall, hmove]
        exact h.stop hmove
      · rw [hcall, hmove, Except.map, Reply.errors, List.append_nil]
        exact h.advance hmove

/-- Any calls keep the account. -/
theorem run (h : Account lexed met cursor) (calls : List Call) :
    Account lexed (met ++ cursor.errors calls) (cursor.after calls) := by
  induction calls generalizing met cursor with
  | nil =>
      rw [Cursor.errors, List.append_nil]
      exact h
  | cons next calls ih =>
      rw [Cursor.errors, ← List.append_assoc, after_cons]
      exact ih (h.call next)

theorem length_met_le (h : Account lexed met cursor) : met.length ≤ 1 := by
  rcases h.errors with ⟨rfl, -⟩ | ⟨error, position, rfl, -⟩
  · exact Nat.zero_le 1
  · exact Nat.le_refl 1

/-- All tokens have been moved past at the end, and only there. -/
theorem atEnd_iff (h : Account lexed met cursor) :
    cursor.atEnd = true ↔ cursor.consumed = lexed.values := by
  rw [← h.values, ← ahead_values_eq_nil_iff, List.self_eq_append_right]

theorem seen_prefix (h : Account lexed met cursor) :
    cursor.consumed ++ cursor.pending <+: lexed.values := by
  rw [← h.values]
  exact (List.prefix_append_right_inj _).2 pending_prefix_ahead

/-- In a broken reading, the error was met by those calls that contain an attempt to move past
the last token. -/
theorem attempted_iff (h : Account lexed [] cursor) {error : LexicalError} {position : Position}
    (hbroken : lexed.ending = .broken error position) (calls : List Call) :
    cursor.Attempted lexed.values calls ↔ cursor.errors calls ≠ [] := by
  constructor
  · rintro ⟨earlier, next, later, rfl, htries, hlast⟩ hnone
    rw [errors_append, Cursor.errors] at hnone
    obtain ⟨hearlier, hlater⟩ := List.append_eq_nil_iff.1 hnone
    obtain ⟨hnext, -⟩ := List.append_eq_nil_iff.1 hlater
    have hearlier' : Account lexed [] (cursor.after earlier) := by
      simpa [hearlier] using h.run earlier
    have herror := call_eq_error_iff.2 ⟨htries, hearlier'.advance_error hbroken hlast⟩
    rw [herror] at hnext
    cases hnext
  · intro herrors
    obtain ⟨earlier, next, later, error, hcalls, herror⟩ := exists_error_of_errors herrors
    obtain ⟨htries, hstop⟩ := call_eq_error_iff.1 herror
    obtain ⟨-, -, hlast⟩ := (h.run earlier).of_advance_error hstop
    exact ⟨earlier, next, later, hcalls, htries, hlast⟩

/-- After some calls, one more meets an error if it is the first to try to move past the last
token of a broken reading. -/
theorem error_iff (h : Account lexed [] cursor) (calls : List Call) (next : Call)
    (error : LexicalError) :
    ((cursor.after calls).call next).1 = .error error ↔
      (∃ position, lexed.ending = .broken error position) ∧
        next.tries (cursor.after calls) = true ∧ (cursor.after calls).AtLast lexed.values ∧
        ¬ cursor.Attempted lexed.values calls := by
  have hcalls := h.run calls
  rw [List.nil_append] at hcalls
  rw [call_eq_error_iff]
  constructor
  · rintro ⟨htries, hstop⟩
    obtain ⟨hnone, ⟨position, hbroken⟩, hlast⟩ := hcalls.of_advance_error hstop
    refine ⟨⟨position, hbroken⟩, htries, hlast, fun hattempted => ?_⟩
    exact (h.attempted_iff hbroken calls).1 hattempted hnone
  · rintro ⟨⟨position, hbroken⟩, htries, hlast, hfirst⟩
    have hnone : cursor.errors calls = [] :=
      Classical.byContradiction fun hsome =>
        hfirst ((h.attempted_iff hbroken calls).2 hsome)
    rw [hnone] at hcalls
    exact ⟨htries, hcalls.advance_error hbroken hlast⟩

end Account

end Cursor

/-- A cursor reads its text faithfully under any calls. What it has moved past and the token it
stands before are the first tokens of the text, and it is at the end when it has moved past all
of them. No call changes anything at the end, and a call that does not try to move changes
nothing anywhere. A call that tries moves past the current token or meets an error and leaves
the cursor where it stands. The error is that of the text, and it is met once, by the first call
that tries to move past the last token before it. -/
theorem cursor_of_calls {alphabet : Alphabet} {text : String} {cursor : Cursor}
    (start : Cursor.ofText alphabet text = .ok cursor) (calls : List Cursor.Call) :
    let all := (lex alphabet text).values
    let here := cursor.after calls
    here.consumed ++ here.pending <+: all ∧
    (here.atEnd = true ↔ here.consumed = all) ∧
    (here.atEnd = true →
      here.current.value = .finish ∧ here.advance = (.ok here.current, here)) ∧
    (cursor.errors calls).length ≤ 1 ∧
    ∀ next : Cursor.Call,
      (next.tries here = false ∨ here.atEnd = true → (here.call next).2 = here) ∧
      (next.tries here = true → here.atEnd = false → ∀ reply, (here.call next).1 = .ok reply →
        (here.call next).2.consumed = here.consumed ++ [here.current.value]) ∧
      ∀ error,
        ((here.call next).1 = .error error →
          (here.call next).2.consumed = here.consumed ∧
            (here.call next).2.current = here.current) ∧
        ((here.call next).1 = .error error ↔
          (∃ position, (lex alphabet text).ending = .broken error position) ∧
            next.tries here = true ∧ here.AtLast all ∧ ¬ cursor.Attempted all calls) := by
  intro all here
  have haccount : Cursor.Account (lex alphabet text) [] cursor := .of_ofLexer start
  have hhere : Cursor.Account (lex alphabet text) (cursor.errors calls) here :=
    haccount.run calls
  refine ⟨hhere.seen_prefix, hhere.atEnd_iff, ?_, hhere.length_met_le, fun next => ⟨?_, ?_, ?_⟩⟩
  · intro ended
    exact ⟨beq_iff_eq.1 ended, Cursor.advance_of_atEnd ended⟩
  · rintro (hstill | ended)
    · obtain ⟨reply, hcall⟩ := Cursor.call_of_not_tries hstill
      rw [hcall]
    · exact Cursor.call_of_atEnd ended next
  · intro htries inside reply hreply
    exact Cursor.consumed_of_call htries inside hreply
  · intro error
    exact ⟨Cursor.frame_of_call_error, haccount.error_iff calls next error⟩

/-- After the error of a text was met, no call meets another, and moving on leads past the token
that was left behind it to the end. -/
theorem cursor_of_calls_broken :
    let cursor : Cursor :=
      { current := ⟨.symbol 'F', ⟨.start, ⟨1, 1, 2⟩⟩⟩
        lexer := { alphabet := .strict, rest := ['[', '^'], position := ⟨1, 1, 2⟩ } }
    let calls : List Cursor.Call := [.check .assign, .advance, .advancePast .push]
    let here := cursor.after calls
    Cursor.ofText .strict "F[^" = .ok cursor ∧
      cursor.errors calls = [.invalidCharacter '^' ⟨2, 1, 3⟩] ∧
      here.consumed = [.symbol 'F'] ∧ here.pending = [.push] ∧
      (∀ next error, (here.call next).1 ≠ .error error) ∧
      (here.call .advance).2.consumed = [.symbol 'F', .push] ∧
      (here.call .advance).2.atEnd = true := by
  intro cursor calls here
  have start : Cursor.ofText .strict "F[^" = .ok cursor := rfl
  have hall : (lex .strict "F[^").values = [.symbol 'F', .push] := by decide +kernel
  have hattempted : cursor.Attempted (lex .strict "F[^").values calls :=
    ⟨[.check .assign, .advance], .advancePast .push, [], rfl, rfl, by rw [hall]; rfl⟩
  obtain ⟨-, -, -, -, hnext⟩ := cursor_of_calls start calls
  have hconsumed : (here.call .advance).2.consumed = [.symbol 'F', .push] :=
    (hnext .advance).2.1 rfl rfl (.token here.current) rfl
  have hend : (here.call .advance).2.atEnd = true ↔
      (here.call .advance).2.consumed = (lex .strict "F[^").values :=
    (cursor_of_calls start (calls ++ [Cursor.Call.advance])).2.1
  refine ⟨start, rfl, rfl, rfl, ?_, hconsumed, hend.2 (hconsumed.trans hall.symm)⟩
  intro next error herror
  obtain ⟨-, -, -, hfirst⟩ := ((hnext next).2.2 error).2.1 herror
  exact hfirst hattempted

end Lindenmayer
