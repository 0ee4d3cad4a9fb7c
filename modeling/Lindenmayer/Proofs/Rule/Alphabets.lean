import Lindenmayer.Proofs.Rule.Diagnosis
import Lindenmayer.Proofs.Token.Alphabets

/-!
# Rules over two alphabets

The extended alphabet only ever admits more. The reader of rules looks one token ahead, so which of
two errors it reports depends on how far it has come; but its verdict is that of a scan
(`RuleText.map_parse`), and

* where a text breaks off, the verdict is the error of the text, or it stands whatever comes behind
  (`RuleScan.verdict_of_broken`);
* what the strict alphabet lacks breaks a text off (`lex_alphabets`).

So a rule text is read alike with both alphabets unless the strict one names a character that it
lacks (`RuleText.parse_alphabets`).
-/

namespace Lindenmayer

/-- Where a text breaks off, its error is the verdict, or the verdict comes from the tokens before
and stands whatever follows them. -/
theorem RuleScan.verdict_of_broken (scan : RuleScan) (tokens : List (Spanned Token))
    (fault : LexicalError) (position : Position) :
    scan.verdict ⟨tokens, .broken fault position⟩ = .error (.lexical fault) ∨
      ∀ more ending, scan.verdict ⟨tokens ++ more, ending⟩ =
        scan.verdict ⟨tokens, .broken fault position⟩ := by
  induction tokens generalizing scan with
  | nil => exact .inl rfl
  | cons t rest ih =>
      cases htake : scan.take t with
      | ok next =>
          simp only [List.cons_append, verdict_cons htake]
          exact ih next
      | error error =>
          cases hdeep : error.isTooDeep with
          | false =>
              refine .inr fun more ending => ?_
              rw [List.cons_append, verdict_cons_of_error htake hdeep,
                verdict_cons_of_error htake hdeep]
          | true =>
              -- a bracket too many waits for the token behind it
              obtain ⟨span, rfl⟩ : ∃ span, error = .tooDeep span := by
                cases error with
                | tooDeep span => exact ⟨span, rfl⟩
                | _ => cases hdeep
              cases rest with
              | nil => exact .inl (verdict_broken (.inr ⟨span, htake⟩))
              | cons second rest =>
                  refine .inr fun more ending => ?_
                  rw [List.cons_append, List.cons_append,
                    verdict_cons_of_tooDeep htake fun h => absurd h (List.cons_ne_nil _ _),
                    verdict_cons_of_tooDeep htake fun h => absurd h (List.cons_ne_nil _ _)]

namespace RuleText

variable {alphabet : Alphabet} {text : String}

/-- A text that is not too long is read with the verdict of the scan of its tokens. -/
theorem map_parse (alphabet : Alphabet) (hlength : text.length ≤ Limits.ruleLength) :
    (parse alphabet text).map (fun _ => ()) = RuleScan.start.verdict (lex alphabet text) := by
  rw [parse, checkLength, if_pos hlength]
  cases hcursor : Cursor.ofText alphabet text with
  | error error =>
      obtain ⟨position, hlex⟩ := Cursor.run_of_ofLexer_error hcursor
      rw [lex, hlex]
      rfl
  | ok cursor =>
      obtain ⟨hahead, hpassed⟩ := Cursor.ahead_of_ofLexer hcursor
      have hverdict := RuleReader.verdict_of_rule (.of_passed hpassed)
        (Cursor.pointed_of_ofLexer hcursor)
      rw [RuleReader.verdict, RuleReader.ahead, hahead] at hverdict
      exact hverdict.symm

theorem parse_eq_error_iff (hlength : text.length ≤ Limits.ruleLength) {error : RuleError} :
    parse alphabet text = .error error ↔
      RuleScan.start.verdict (lex alphabet text) = .error error := by
  rw [← map_parse alphabet hlength]
  cases parse alphabet text <;> simp [Except.map]

/-- What is read depends on the tokens of a text only, and on how they end. -/
theorem parse_eq_of_lex_eq {other : Alphabet} (hlength : text.length ≤ Limits.ruleLength)
    (h : lex alphabet text = lex other text) : parse alphabet text = parse other text := by
  cases hfirst : parse alphabet text with
  | error error =>
      rw [parse_eq_error_iff hlength, h, ← parse_eq_error_iff hlength] at hfirst
      exact hfirst.symm
  | ok rule =>
      cases hsecond : parse other text with
      | error error =>
          rw [parse_eq_error_iff hlength, ← h, ← parse_eq_error_iff hlength, hfirst] at hsecond
          cases hsecond
      | ok rule' => rw [eq_of_parse hfirst, eq_of_parse hsecond, h]

/-- A text that breaks off is no rule. -/
theorem exists_error_of_broken {tokens : List (Spanned Token)} {fault : LexicalError}
    {place : Position} (h : lex alphabet text = ⟨tokens, .broken fault place⟩) :
    ∃ error, parse alphabet text = .error error := by
  cases hparse : parse alphabet text with
  | error error => exact ⟨error, rfl⟩
  | ok rule =>
      obtain ⟨-, ⟨tokens, htokens, -⟩, -⟩ := sound_of_parse hparse
      rw [h] at htokens
      cases htokens

/-- A text that is read with the strict alphabet has no marks but those of yaws. -/
theorem axis_of_mem_parse_strict {rule : RuleText} (h : parse .strict text = .ok rule)
    {turn : Direction} (hturn : .direction turn ∈ rule.tokens) : turn.axis = .yaw := by
  rw [eq_of_parse h] at hturn
  exact axis_of_mem_lex_strict hturn

/-- The extended alphabet only ever admits more. A text is read alike with both alphabets, to the
same rule or the same error in the same place, unless the strict reading ends at the mark of a turn
that is no yaw. So a strict rule is the same rule with the extended alphabet, and all its turns are
yaws. -/
theorem parse_alphabets (text : String) :
    (parse .extended text = parse .strict text ∨
      ∃ c position, c ∈ ['^', '&', '\\', '/'] ∧
        parse .strict text = .error (.lexical (.invalidCharacter c position))) ∧
    ∀ rule, parse .strict text = .ok rule →
      parse .extended text = .ok rule ∧
        ∀ turn, .direction turn ∈ rule.tokens → turn.axis = .yaw := by
  have halike : parse .extended text = parse .strict text ∨
      ∃ c position, c ∈ Direction.tilts ∧
        parse .strict text = .error (.lexical (.invalidCharacter c position)) := by
    by_cases hlength : text.length ≤ Limits.ruleLength
    · rcases lex_alphabets text with
        hlex | ⟨tokens, c, position, place, more, ending, hc, hstrict, hextended⟩
      · exact .inl (parse_eq_of_lex_eq hlength hlex)
      · obtain ⟨error, herror⟩ := exists_error_of_broken hstrict
        have hverdict := (parse_eq_error_iff hlength).1 herror
        rcases RuleScan.verdict_of_broken .start tokens (.invalidCharacter c position) place with
          hbroken | hstands
        · -- the strict reading ends at the character
          rw [hstrict, hbroken] at hverdict
          cases hverdict
          exact .inr ⟨c, position, hc, herror⟩
        · -- both readings end before the character
          rw [hstrict, ← hstands more ending, ← hextended, ← parse_eq_error_iff hlength]
            at hverdict
          exact .inl (hverdict.trans herror.symm)
    · simp only [parse, checkLength, if_neg hlength]
      exact .inl rfl
  refine ⟨halike, ?_⟩
  intro rule hrule
  refine ⟨?_, fun turn hturn => axis_of_mem_parse_strict hrule hturn⟩
  rcases halike with hsame | ⟨c, position, -, hbroken⟩
  · rw [hsame, hrule]
  · rw [hrule] at hbroken
    cases hbroken

/-- A closing bracket out of place comes before the mark right behind it, a name without `:=` does
not. -/
example : parse .strict "F:=]^" = parse .extended "F:=]^" ∧
    parse .strict "F^" = .error (.lexical (.invalidCharacter '^' ⟨1, 1, 2⟩)) := by
  decide +kernel

end RuleText

end Lindenmayer
