import Lindenmayer.Proofs.Rule.Acceptance
import Lindenmayer.Proofs.Rule.Scan
import Lindenmayer.Proofs.Word.Brackets
import Mathlib.Control.Monad.Basic

/-!
# What is wrong with a rule text

The reader of rule texts recurses into branches and looks one token ahead, so its errors are
raised at several places and compete with errors in the text. A flat scan (`RuleScan`) comes
to the same verdict:

* moving past a token takes it off what is scanned (`RuleReader.verdict_of_advance`), and a
  bracket too many is the one error that waits for the token behind it
  (`RuleReader.verdict_of_tooDeep`);
* a branch is scanned as its brackets and its body, with one bracket more open in between
  (`RuleReader.verdict_of_branch`, `RuleReader.verdict_of_close`);
* so a body is scanned as far as it is read (`RuleReader.verdict_of_body`), and a text is
  read with the verdict of its scan (`RuleText.parse_diagnosis`).
-/

namespace Lindenmayer

namespace RuleReader

variable {reader : RuleReader} {scan next : RuleScan} {opened : List Span}

/-- The verdict of a scan on what the reader has before it. -/
def verdict (reader : RuleReader) (scan : RuleScan) : Except RuleError Unit :=
  scan.verdict reader.ahead

theorem verdict_enter : reader.enter.verdict scan = reader.verdict scan := rfl

/-! ## One token -/

/-- A reader that cannot move on stands before the last token of a broken text. -/
theorem ahead_of_advance_error {inside : reader.cursor.atEnd = false} {error : RuleError}
    (h : reader.advance inside = .error error) :
    ∃ fault position, error = .lexical fault ∧
      reader.ahead = ⟨[reader.current], .broken fault position⟩ := by
  unfold advance at h
  split at h <;> cases h
  next hadvance =>
  obtain ⟨position, hahead⟩ := Cursor.ahead_of_advance_error hadvance
  exact ⟨_, position, rfl, hahead⟩

/-- A reader that moves on takes the current token off what is ahead. -/
theorem ahead_of_advance {inside : reader.cursor.atEnd = false} {t : Spanned Token}
    {moved : reader.Beyond} (h : reader.advance inside = .ok (t, moved)) :
    reader.ahead = ⟨reader.current :: moved.1.ahead.tokens, moved.1.ahead.ending⟩ ∧
      moved.1.cursor.Pointed := by
  unfold advance at h
  split at h <;> cases h
  next hadvance =>
  obtain ⟨hcurrent, -, hahead⟩ := Cursor.ahead_of_advance inside hadvance
  rw [hcurrent] at hahead
  exact ⟨hahead, Cursor.pointed_of_advance inside hadvance⟩

/-- Nothing is ahead at the end of a text only, where it is complete. -/
theorem complete_of_ahead_nil (h : reader.ahead.tokens = []) :
    ∃ position, reader.ahead.ending = .complete position := by
  have hfinish : reader.current.value = .finish :=
    current_of_values_nil (by rw [Lexed.values, h]; rfl)
  exact ⟨_, by rw [ahead_of_finish hfinish]⟩

/-- A token in its place is scanned by moving past it. -/
theorem verdict_of_advance (inside : reader.cursor.atEnd = false)
    (htake : scan.take reader.current = .ok next) :
    reader.verdict scan = (do
      let (_, moved) ← reader.advance inside
      moved.1.verdict next) := by
  cases hadvance : reader.advance inside with
  | error error =>
      obtain ⟨fault, position, rfl, hahead⟩ := ahead_of_advance_error hadvance
      rw [verdict, hahead, RuleScan.verdict_broken (.inl ⟨_, htake⟩)]
      rfl
  | ok result =>
      obtain ⟨t, moved⟩ := result
      rw [verdict, (ahead_of_advance hadvance).1, RuleScan.verdict_cons htake]
      rfl

/-- A bracket too many is an error once the reader has moved past it. -/
theorem verdict_of_tooDeep (inside : reader.cursor.atEnd = false) {span : Span}
    (htake : scan.take reader.current = .error (.tooDeep span)) :
    reader.verdict scan = (do
      let _ ← reader.advance inside
      .error (.tooDeep span)) := by
  cases hadvance : reader.advance inside with
  | error error =>
      obtain ⟨fault, position, rfl, hahead⟩ := ahead_of_advance_error hadvance
      rw [verdict, hahead, RuleScan.verdict_broken (.inr ⟨_, htake⟩)]
      rfl
  | ok result =>
      rw [verdict, (ahead_of_advance hadvance).1,
        RuleScan.verdict_cons_of_tooDeep htake complete_of_ahead_nil]
      rfl

/-- Any other token out of place is an error at once. -/
theorem verdict_of_error (inside : reader.cursor.atEnd = false) {error : RuleError}
    (htake : scan.take reader.current = .error error)
    (settled : error.isTooDeep = false) : reader.verdict scan = .error error := by
  rw [verdict, ahead, Cursor.ahead_of_inside inside]
  exact RuleScan.verdict_cons_of_error htake settled

/-- At the end of the text the scan is closed there. -/
theorem verdict_of_finish (hfinish : reader.current.value = .finish) :
    reader.verdict scan = scan.close reader.current.span.first := by
  rw [verdict, ahead_of_finish hfinish]
  rfl

/-! ## Bodies -/

/-- The token behind a body closes the innermost branch, or is wrong for the scan as well. -/
theorem verdict_of_close {opening : Span} (stops : reader.Stops) :
    reader.verdict (.body (opening :: opened)) = (do
      let closed ← reader.closeBranch opening
      closed.verdict (.body opened)) := by
  unfold closeBranch
  rcases stops.current_cases with hcurrent | hcurrent | hcurrent
  · have inside : reader.cursor.atEnd = false := atEnd_eq_false hcurrent (by decide)
    rw [verdict_of_advance inside (RuleScan.take_of_pop hcurrent),
      advancePast_of_sameKind (Token.sameKind_pop.2 hcurrent) inside]
    cases reader.advance inside <;> rfl
  · rw [verdict_of_finish hcurrent, advancePast_of_other (by rw [hcurrent]; rfl)]
    simp only [ok_bind, hcurrent]
    rfl
  · have inside : reader.cursor.atEnd = false := atEnd_eq_false hcurrent (by decide)
    rw [verdict_of_error inside (RuleScan.take_of_assign hcurrent) rfl,
      advancePast_of_other (by rw [hcurrent]; rfl)]
    simp only [ok_bind, hcurrent]
    rfl

/-- A branch is scanned as far as it is read, if that holds of its body. -/
theorem verdict_of_branch (hpush : reader.current.value = .push)
    (hdepth : reader.depth = opened.length)
    (body : ∀ opening inner, reader.advance (atEnd_eq_false hpush nofun) = .ok (opening, inner) →
      inner.1.depth < Limits.branchDepth →
      inner.1.enter.verdict (.body (opening.span :: opened)) = (do
        let last ← inner.1.enter.bodyEnd
        last.verdict (.body (opening.span :: opened)))) :
    reader.verdict (.body opened) = (do
      let closed ← (reader.readBranch hpush).map Subtype.val
      closed.verdict (.body opened)) := by
  have inside : reader.cursor.atEnd = false := atEnd_eq_false hpush (by decide)
  rw [readBranch_map hpush]
  by_cases room : opened.length < Limits.branchDepth
  · -- the bracket is moved past, the body read, and the bracket behind it looked for
    rw [verdict_of_advance inside (RuleScan.take_of_push hpush room)]
    cases hopen : reader.advance inside with
    | error error => rfl
    | ok result =>
        obtain ⟨opening, inner⟩ := result
        obtain ⟨hcurrent, -, hinner, -⟩ := passes_of_advance hopen
        have hroom : inner.1.depth < Limits.branchDepth := by omega
        have hbody := body opening inner hopen hroom
        rw [verdict_enter, hcurrent] at hbody
        simp only [ok_bind, ge_iff_le, Nat.not_le.mpr hroom, if_false, hbody, hcurrent]
        cases hlast : inner.1.enter.bodyEnd with
        | error error => rfl
        | ok last =>
            have stops : last.Stops := stops_of_ends (ends_iff.2 hlast)
            show last.leave.verdict _ = _
            exact verdict_of_close stops
  · -- the bracket is moved past before the branches are counted
    rw [verdict_of_tooDeep inside (RuleScan.take_of_full hpush room)]
    cases hopen : reader.advance inside with
    | error error => rfl
    | ok result =>
        obtain ⟨opening, inner⟩ := result
        obtain ⟨hcurrent, -, hinner, -⟩ := passes_of_advance hopen
        have hfull : inner.1.depth ≥ Limits.branchDepth := by omega
        simp only [ok_bind, hfull, if_true, hcurrent]
        rfl

/-- A body is scanned as far as it is read. The recursion is that of the reader. -/
theorem verdict_of_body {reader : RuleReader} {opened : List Span} (counted : reader.Counted)
    (hdepth : reader.depth = opened.length) :
    reader.verdict (.body opened) = (do
      let last ← reader.bodyEnd
      last.verdict (.body opened)) := by
  cases plain : reader.current.value.isPlain with
  | true =>
      have inside := atEnd_eq_false_of_isPlain plain
      rw [verdict_of_advance inside (RuleScan.take_of_isPlain plain),
        bodyEnd_of_isPlain plain inside]
      cases hadvance : reader.advance inside with
      | error error => rfl
      | ok result =>
          obtain ⟨t, moved⟩ := result
          have hreads := reads_of_advance counted plain hadvance
          exact verdict_of_body hreads.counted (hreads.depth.trans hdepth)
  | false =>
      by_cases hpush : reader.current.value = .push
      · rw [bodyEnd_of_push hpush, verdict_of_branch hpush hdepth ?body]
        case body =>
          -- inside the branch one bracket more is open, for the reader and for the scan
          intro opening inner hopen room
          obtain ⟨-, -, hinner, -⟩ := passes_of_advance hopen
          have hdeeper : inner.1.enter.depth = (opening.span :: opened).length := by
            show inner.1.depth + 1 = opened.length + 1
            omega
          exact verdict_of_body (counted_enter room) hdeeper
        cases hbranch : reader.readBranch hpush with
        | error error => rfl
        | ok closed =>
            obtain ⟨word, n, hreads⟩ := reads_of_readBranch (fun _ _ => readBody_sound) hbranch
            exact verdict_of_body hreads.counted (hreads.depth.trans hdepth)
      · rw [bodyEnd_of_other plain hpush]
        rfl
termination_by reader.left
decreasing_by
  · exact inner.2
  · exact closed.2
  · exact moved.2

/-! ## Whole rules -/

/-- A token out of place in the head of a rule, the end of the text included, is an error. -/
theorem verdict_of_head {error : RuleError} (pointed : reader.cursor.Pointed)
    (htake : scan.take reader.current = .error error)
    (settled : error.isTooDeep = false)
    (hclose : ∀ position,
      scan.close position = (scan.take ⟨.finish, .point position⟩).map fun _ => ()) :
    reader.verdict scan = .error error := by
  cases ended : reader.cursor.atEnd with
  | false => exact verdict_of_error ended htake settled
  | true =>
      -- the scan is closed as if it took the end for a token
      have hfinish : reader.current.value = .finish := by
        simpa [Cursor.atEnd, current] using ended
      have hcurrent : reader.current = ⟨.finish, .point reader.current.span.first⟩ := by
        rw [← hfinish]
        exact congrArg (Spanned.mk _) (pointed ended)
      rw [verdict_of_finish hfinish, hclose, ← hcurrent, htake]
      rfl

/-- The token behind the body of a rule ends it, or is wrong for the scan as well. -/
theorem verdict_of_end (stops : reader.Stops) :
    reader.verdict (.body []) = reader.closeRule.map fun _ => () := by
  unfold closeRule
  rcases stops.current_cases with hcurrent | hcurrent | hcurrent
  · have inside : reader.cursor.atEnd = false := atEnd_eq_false hcurrent (by decide)
    rw [verdict_of_error inside (RuleScan.take_of_unmatched hcurrent) rfl, hcurrent]
    rfl
  · rw [verdict_of_finish hcurrent, hcurrent]
    rfl
  · have inside : reader.cursor.atEnd = false := atEnd_eq_false hcurrent (by decide)
    rw [verdict_of_error inside (RuleScan.take_of_assign hcurrent) rfl, hcurrent]
    rfl

/-- Behind its symbol a rule is read with the verdict of its scan. -/
theorem verdict_of_named (counted : reader.Counted) (hdepth : reader.depth = 0)
    (pointed : reader.cursor.Pointed) :
    reader.verdict .named = reader.readDefinition.map fun _ => () := by
  unfold readDefinition
  by_cases hassign : reader.current.value = .assign
  · have inside : reader.cursor.atEnd = false := atEnd_eq_false hassign (by decide)
    have htake : RuleScan.named.take reader.current = .ok (.body []) := if_pos hassign
    rw [verdict_of_advance inside htake,
      advancePast_of_sameKind (Token.sameKind_assign.2 hassign) inside]
    cases hadvance : reader.advance inside with
    | error error => rfl
    | ok result =>
        obtain ⟨t, moved⟩ := result
        obtain ⟨-, -, hdepth', hdeepest⟩ := passes_of_advance hadvance
        have hcounted : moved.1.Counted :=
          ⟨by rw [hdepth', hdeepest]; exact counted.depth_le_deepest, by omega⟩
        have hnone : moved.1.depth = ([] : List Span).length := hdepth'.trans hdepth
        show moved.1.verdict (.body []) = (moved.1.bodyEnd >>= closeRule).map _
        rw [verdict_of_body hcounted hnone]
        cases hlast : moved.1.bodyEnd with
        | error error => rfl
        | ok last => exact verdict_of_end (stops_of_ends (ends_iff.2 hlast))
  · have htake : RuleScan.named.take reader.current =
        .error (.missingAssignment reader.current.value reader.current.span) :=
      if_neg hassign
    have hkind : reader.current.value.sameKind .assign = false :=
      Bool.eq_false_iff.mpr (mt Token.sameKind_assign.1 hassign)
    rw [verdict_of_head pointed htake rfl fun _ => rfl, advancePast_of_other hkind]
    rfl

/-- A rule is read with the verdict of its scan. -/
theorem verdict_of_rule (fresh : reader.Fresh) (pointed : reader.cursor.Pointed) :
    reader.verdict .start = reader.readRule.map fun _ => () := by
  by_cases hsymbol : reader.current.value.isSymbol = true
  · have inside := atEnd_eq_false_of_isSymbol hsymbol
    have htake : RuleScan.start.take reader.current = .ok .named := if_pos hsymbol
    rw [verdict_of_advance inside htake, readRule_of_isSymbol hsymbol]
    cases hadvance : reader.advance inside with
    | error error => rfl
    | ok result =>
        obtain ⟨t, first⟩ := result
        obtain ⟨-, -, hdepth, hdeepest⟩ := passes_of_advance hadvance
        rw [fresh.depth] at hdepth
        have counted : first.1.Counted := ⟨by omega, by omega⟩
        exact verdict_of_named counted hdepth (ahead_of_advance hadvance).2
  · have htake : RuleScan.start.take reader.current =
        .error (.missingSymbol reader.current.value reader.current.span) := if_neg hsymbol
    rw [verdict_of_head pointed htake rfl fun _ => rfl, readRule, dif_neg hsymbol]
    rfl

end RuleReader

/-- The tokens of a rule that was read are those of its text, and its depth is their peak. -/
theorem RuleText.eq_of_parse {alphabet : Alphabet} {text : String} {rule : RuleText}
    (h : RuleText.parse alphabet text = .ok rule) :
    rule = ⟨(lex alphabet text).values, Word.peak (lex alphabet text).values⟩ := by
  obtain ⟨-, ⟨tokens, htokens, hvalues⟩, letter, body, hrule, hbody, -⟩ :=
    RuleText.sound_of_parse h
  obtain ⟨rfl, -⟩ := Lexed.toExcept_eq_ok_iff.1 htokens
  obtain ⟨outline, rfl, hdepth⟩ := hbody.exists_outline
  have hpeak : Word.peak rule.tokens = rule.depth := by
    rw [hrule]
    show ({} : Unmatched).peak (.symbol letter :: .assign :: outline.word) = rule.depth
    rw [Unmatched.peak_cons, Unmatched.peak_cons, Unmatched.take_plain _ rfl,
      Unmatched.take_plain _ rfl, outline.peak_word, ← hdepth]
    show max 0 (max 0 (0 + outline.depth)) = outline.depth
    omega
  rw [Lexed.values, hvalues, hpeak]

/-- A text that is not too long is read as a rule with the verdict of a scan of its tokens:
its first error is that of the scan, and without one the rule has the tokens of the text and
the peak of its branches. -/
theorem RuleText.parse_diagnosis {alphabet : Alphabet} {text : String}
    (hlength : text.length ≤ Limits.ruleLength) :
    RuleText.parse alphabet text = (RuleScan.start.verdict (lex alphabet text)).map fun _ =>
      ⟨(lex alphabet text).values, Word.peak (lex alphabet text).values⟩ := by
  cases hcursor : Cursor.ofText alphabet text with
  | error error =>
      obtain ⟨position, hlex⟩ := Cursor.run_of_ofLexer_error hcursor
      have hverdict : RuleScan.start.verdict (lex alphabet text) = .error (.lexical error) := by
        rw [lex, hlex]
        rfl
      rw [hverdict, parse, checkLength, if_pos hlength, hcursor]
      rfl
  | ok cursor =>
      obtain ⟨hahead, hpassed⟩ := Cursor.ahead_of_ofLexer hcursor
      have hverdict : RuleScan.start.verdict (lex alphabet text) =
          (RuleReader.readRule { cursor }).map fun _ => () := by
        rw [← RuleReader.verdict_of_rule (.of_passed hpassed) (Cursor.pointed_of_ofLexer hcursor),
          RuleReader.verdict, RuleReader.ahead, hahead]
        rfl
      have hparse : RuleText.parse alphabet text = RuleReader.readRule { cursor } := by
        rw [parse, checkLength, if_pos hlength, hcursor]
        rfl
      rw [hverdict, hparse]
      cases hrule : RuleReader.readRule { cursor } with
      | error error => rfl
      | ok rule => exact congrArg Except.ok (eq_of_parse (hparse.trans hrule))

/-- The `:=` in an open branch is the first token out of place, before an error in the text. -/
theorem RuleText.parse_diagnosis_assigned_twice :
    "F:=[[+F]:=%".length ≤ Limits.ruleLength ∧
      RuleText.parse .strict "F:=[[+F]:=%" =
        .error (.unexpectedToken .closingBracket .assign ⟨⟨8, 1, 9⟩, ⟨10, 1, 11⟩⟩) := by
  have hlength : "F:=[[+F]:=%".length ≤ Limits.ruleLength := by decide
  have hverdict : RuleScan.start.verdict (lex .strict "F:=[[+F]:=%") =
      .error (.unexpectedToken .closingBracket .assign ⟨⟨8, 1, 9⟩, ⟨10, 1, 11⟩⟩) := by
    decide +kernel
  refine ⟨hlength, ?_⟩
  rw [RuleText.parse_diagnosis hlength, hverdict]
  rfl

/-- Of two open brackets the inner one is reported. -/
example : RuleText.parse .strict "F:=[F[" = .error (.unclosedBranch ⟨⟨5, 1, 6⟩, ⟨6, 1, 7⟩⟩) := by
  decide +kernel

end Lindenmayer
