import Lindenmayer.Proofs.Rule.Reading
import Lindenmayer.Rule

/-!
# Which texts are rules

The reader of rule texts is a recursive descent with one token of lookahead. It accepts what
the grammar describes, and nothing else:

* whatever `RuleReader.readBody` moves past is a body (`readBody_sound`);
* before a body that fits under the limit it moves past exactly that body
  (`readBody_complete`);
* so a text is a rule if and only if it lexes to a symbol, `:=` and a body
  (`RuleText.parse_eq_ok_iff`).
-/

namespace Lindenmayer

/-- The tokens are those of a rule: a symbol, `:=` and a body under the limit. -/
def RuleText.WellFormed (rule : RuleText) : Prop :=
  ∃ letter body, rule.tokens = .symbol letter :: .assign :: body ∧ Body body rule.depth ∧
    rule.depth ≤ Limits.branchDepth

namespace RuleReader

/-- A branch that is read is a branch, if what is read in it is a body. -/
theorem reads_of_readBranch {reader : RuleReader} {hpush : reader.current.value = .push}
    {closed : reader.Beyond}
    (body : ∀ (inner : reader.Beyond) (last : RuleReader), inner.1.enter.Counted →
      inner.1.enter.Ends last → ∃ word n, inner.1.enter.Reads word n last)
    (h : reader.readBranch hpush = .ok closed) : ∃ word n, reader.Reads word n closed.1 := by
  obtain ⟨opening, inner, last, behind, hopen, room, hbody, hclose, hclosed⟩ :=
    readBranch_eq_ok h
  obtain ⟨word, n, hword⟩ := body inner last.1 (counted_enter room) ⟨last.2, hbody⟩
  rw [hclosed]
  exact ⟨_, _, reads_of_branch hpush hopen hword hclose⟩

/-- Whatever is moved past is a body. The recursion is that of the reader. -/
theorem readBody_sound {reader after : RuleReader} (counted : reader.Counted)
    (h : reader.Ends after) : ∃ word n, reader.Reads word n after := by
  cases plain : reader.current.value.isPlain with
  | true =>
      have inside := atEnd_eq_false_of_isPlain plain
      obtain ⟨t, moved, hadvance, hrest⟩ := (ends_iff_of_isPlain plain inside).1 h
      have hfirst := reads_of_advance counted plain hadvance
      obtain ⟨word, n, hword⟩ := readBody_sound hfirst.counted hrest
      exact ⟨_, _, hfirst.trans hword⟩
  | false =>
      by_cases hpush : reader.current.value = .push
      · obtain ⟨closed, hbranch, hrest⟩ := (ends_iff_of_push hpush).1 h
        obtain ⟨word, n, hfirst⟩ :=
          reads_of_readBranch (fun inner last => readBody_sound) hbranch
        obtain ⟨tail, k, htail⟩ := readBody_sound hfirst.counted hrest
        exact ⟨_, _, hfirst.trans htail⟩
      · rw [(ends_iff_of_other plain hpush).1 h]
        exact ⟨[], 0, .refl counted⟩
termination_by reader.left
decreasing_by
  · exact inner.2
  · exact closed.2
  · exact moved.2

/-- The reader moves past exactly the word, where the word fits under the limit and the end
of the text or a closing bracket stands behind it. -/
def Completes (word : List Token) (n : Nat) : Prop :=
  ∀ ⦃reader : RuleReader⦄ ⦃rest : List Token⦄ ⦃position : Position⦄,
    reader.Counted → reader.depth + n ≤ Limits.branchDepth →
    reader.ahead.values = word ++ rest → reader.ahead.ending = .complete position →
    (∀ t ∈ rest.head?, t = .pop) → ∃ after, reader.Ends after ∧ reader.Reads word n after

theorem completes_nil : Completes [] 0 := by
  intro reader rest position counted _ hvalues _ hstop
  have hother : reader.current.value = .finish ∨ reader.current.value = .pop := by
    cases rest with
    | nil => exact .inl (current_of_values_nil hvalues)
    | cons t rest => exact .inr ((current_of_values hvalues).1.trans (hstop t rfl))
  refine ⟨reader, (ends_iff_of_other ?_ ?_).2 rfl, .refl counted⟩
  · rcases hother with h | h <;> rw [h] <;> rfl
  · rcases hother with h | h <;> rw [h] <;> nofun

theorem completes_cons {t : Token} {word : List Token} {n : Nat} (plain : t.isPlain = true)
    (ih : Completes word n) : Completes (t :: word) n := by
  intro reader rest position counted hroom hvalues complete hstop
  obtain ⟨hcurrent, inside⟩ := current_of_values hvalues
  obtain ⟨_, moved, hadvance⟩ := exists_advance inside complete
  rw [← hcurrent] at plain
  have hfirst := reads_of_advance counted plain hadvance
  have hbehind : moved.1.ahead.values = word ++ rest := by
    have := hfirst.values.symm.trans hvalues
    simpa using List.tail_eq_of_cons_eq this
  obtain ⟨after, hends, hreads⟩ := ih hfirst.counted (hfirst.depth ▸ hroom) hbehind
    (hfirst.ending.trans complete) hstop
  refine ⟨after, (ends_iff_of_isPlain plain inside).2 ⟨_, moved, hadvance, hends⟩, ?_⟩
  have hboth := hfirst.trans hreads
  rwa [hcurrent, Nat.zero_max] at hboth

theorem completes_branch {inner word : List Token} {m n : Nat} (ihInner : Completes inner m)
    (ih : Completes word n) : Completes (.push :: inner ++ .pop :: word) (max (m + 1) n) := by
  intro reader rest position counted hroom hvalues complete hstop
  obtain ⟨hpush, inside⟩ := current_of_values hvalues
  obtain ⟨opening, moved, hopen⟩ := exists_advance inside complete
  obtain ⟨hcurrent, hopened, hdepth, hdeepest⟩ := passes_of_advance hopen
  rw [hcurrent, hpush] at hopened
  have room : moved.1.depth < Limits.branchDepth := by omega
  -- the body between the brackets, which the closing bracket ends
  have hbetween : moved.1.ahead.values = inner ++ .pop :: (word ++ rest) := by
    have := hopened.values.symm.trans hvalues
    simpa using List.tail_eq_of_cons_eq this
  obtain ⟨last, ⟨onward, hbody⟩, hlast⟩ := ihInner (counted_enter room)
    (show moved.1.depth + 1 + m ≤ _ by omega) hbetween (hopened.ending.trans complete)
    (fun t ht => (Option.some.inj ht).symm)
  have hclosing : last.leave.ahead.values = .pop :: (word ++ rest) :=
    List.append_cancel_left (hlast.values.symm.trans hbetween)
  have hpop := (current_of_values hclosing).1
  obtain ⟨closed, hclose⟩ := exists_advancePast (t := .pop) rfl (by rw [hpop]; rfl)
    (show last.leave.ahead.ending = _ from hlast.ending.trans (hopened.ending.trans complete))
  obtain ⟨branch, hbranch, hend⟩ := readBranch_of_body hopen room hbody hclose
  have hfirst := reads_of_branch hpush hopen hlast hclose
  rw [← hend] at hfirst
  -- what follows the branch
  have hbehind : branch.1.ahead.values = word ++ rest := by
    have := hfirst.values.symm.trans hvalues
    simpa using this
  obtain ⟨after, hends, hreads⟩ := ih hfirst.counted (show branch.1.depth + n ≤ _ by
    rw [hfirst.depth]; omega) hbehind (hfirst.ending.trans complete) hstop
  refine ⟨after, (ends_iff_of_push hpush).2 ⟨branch, hbranch, hends⟩, ?_⟩
  simpa using hfirst.trans hreads

/-- A body is read to its end. The induction is on the derivation. -/
theorem readBody_complete {word : List Token} {n : Nat} (hword : Body word n) :
    Completes word n := by
  induction hword with
  | empty => exact completes_nil
  | symbol _ ih => exact completes_cons rfl ih
  | direction _ ih => exact completes_cons rfl ih
  | branch _ _ ihInner ih => exact completes_branch ihInner ih

/-! ## Whole rules -/

section

variable {reader : RuleReader} {rule : RuleText}

/-- The reader stands before a text of which nothing has been read. -/
structure Fresh (reader : RuleReader) : Prop where
  consumed : reader.cursor.consumed = []
  depth : reader.depth = 0
  deepest : reader.deepest = 0

theorem Fresh.of_passed {cursor : Cursor} (h : cursor.passed = []) :
    ({ cursor } : RuleReader).Fresh :=
  ⟨by simp [Cursor.consumed, h], rfl, rfl⟩

/-- Before the body of a rule no branch has been counted. -/
theorem Fresh.before_body (fresh : reader.Fresh) {inside : reader.cursor.atEnd = false}
    {t : Spanned Token} {first : reader.Beyond} {second : first.1.Onward}
    (hadvance : reader.advance inside = .ok (t, first))
    (hassign : first.1.advancePast .assign = .ok (true, second)) :
    second.1.depth = 0 ∧ second.1.deepest = 0 ∧ second.1.Counted := by
  obtain ⟨-, -, hdepth, hdeepest⟩ := passes_of_advance hadvance
  obtain ⟨-, -, hdepth', hdeepest'⟩ := passes_of_advancePast rfl hassign
  have zero : second.1.depth = 0 := by rw [hdepth', hdepth, fresh.depth]
  have zero' : second.1.deepest = 0 := by rw [hdeepest', hdeepest, fresh.deepest]
  exact ⟨zero, zero', by omega, by omega⟩

/-- A rule that was read: its symbol, `:=`, its body, and the end. -/
theorem readRule_eq_ok (h : reader.readRule = .ok rule) :
    ∃ (hsymbol : reader.current.value.isSymbol = true) (t : Spanned Token)
      (first : reader.Beyond) (second : first.1.Onward) (last : second.1.Onward),
      reader.advance (atEnd_eq_false_of_isSymbol hsymbol) = .ok (t, first) ∧
        first.1.advancePast .assign = .ok (true, second) ∧ second.1.readBody = .ok last ∧
        last.1.current.value = .finish ∧ rule = ⟨last.1.cursor.consumed, last.1.deepest⟩ := by
  unfold readRule at h
  split at h
  · next hsymbol =>
    obtain ⟨⟨t, first⟩, hadvance, h⟩ := bind_eq_ok_iff.1 h
    obtain ⟨⟨assigned, second⟩, hassign, h⟩ := bind_eq_ok_iff.1 h
    refine ⟨hsymbol, t, first, second, ?_⟩
    cases assigned with
    | false => cases h
    | true =>
        obtain ⟨last, hbody, h⟩ := bind_eq_ok_iff.1 h
        refine ⟨last, hadvance, hassign, hbody, ?_⟩
        dsimp only at h
        split at h <;> cases h
        next hfinish _ _ => exact ⟨hfinish, rfl⟩
  · cases h

theorem readRule_sound (fresh : reader.Fresh) (h : reader.readRule = .ok rule) :
    (∃ position, reader.ahead.ending = .complete position) ∧
      reader.ahead.values = rule.tokens ∧ rule.WellFormed := by
  obtain ⟨hsymbol, t, first, second, last, hadvance, hassign, hbody, hfinish, rfl⟩ :=
    readRule_eq_ok h
  obtain ⟨hcurrent, hfirst, -, -⟩ := passes_of_advance hadvance
  obtain ⟨hkind, hsecond, -, -⟩ := passes_of_advancePast rfl hassign
  obtain ⟨zero, zero', counted⟩ := fresh.before_body hadvance hassign
  obtain ⟨body, n, hreads⟩ := readBody_sound counted ⟨last.2, hbody⟩
  have hpasses := (hfirst.trans hsecond).trans hreads.toPasses
  have hahead := ahead_of_finish hfinish
  obtain ⟨letter, hletter⟩ := Token.isSymbol_iff.1 hsymbol
  rw [← hcurrent] at hletter
  have hassigned := Token.sameKind_assign.1 hkind
  have hmost : last.1.deepest = n := by
    rw [hreads.deepest, zero, zero']
    omega
  have hroom := hreads.bounded
  have hconsumed : last.1.cursor.consumed = .symbol letter :: .assign :: body := by
    rw [hpasses.consumed, fresh.consumed, hletter, hassigned]
    rfl
  have hvalues := hpasses.values
  rw [hahead, hletter, hassigned] at hvalues
  refine ⟨⟨_, hpasses.ending.symm.trans (by rw [hahead])⟩, ?_, letter, body, hconsumed, ?_, ?_⟩
  · simpa [hconsumed, Lexed.values] using hvalues
  · rw [hmost]
    exact hreads.body
  · show last.1.deepest ≤ _
    omega

theorem readRule_complete (fresh : reader.Fresh) (hrule : rule.WellFormed) {position : Position}
    (complete : reader.ahead.ending = .complete position)
    (hvalues : reader.ahead.values = rule.tokens) : reader.readRule = .ok rule := by
  obtain ⟨letter, body, htokens, hbody, hroom⟩ := hrule
  rw [htokens] at hvalues
  have hletter := (current_of_values hvalues).1
  have hsymbol : reader.current.value.isSymbol = true := Token.isSymbol_iff.2 ⟨_, hletter⟩
  -- the symbol
  obtain ⟨t, first, hadvance⟩ := exists_advance (atEnd_eq_false_of_isSymbol hsymbol) complete
  obtain ⟨hcurrent, hfirst, -, -⟩ := passes_of_advance hadvance
  have hassign : first.1.ahead.values = .assign :: body := by
    simpa using List.tail_eq_of_cons_eq (hfirst.values.symm.trans hvalues)
  have hassigned := (current_of_values hassign).1
  -- the assignment
  obtain ⟨second, hpast⟩ := exists_advancePast rfl (Token.sameKind_assign.2 hassigned)
    (hfirst.ending.trans complete)
  obtain ⟨-, hsecond, -, -⟩ := passes_of_advancePast rfl hpast
  obtain ⟨zero, zero', counted⟩ := fresh.before_body hadvance hpast
  have hbehind : second.1.ahead.values = body ++ [] := by
    simpa using List.tail_eq_of_cons_eq (hsecond.values.symm.trans hassign)
  -- the body
  obtain ⟨last, ⟨onward, hlast⟩, hreads⟩ := readBody_complete hbody counted
    (by omega) hbehind (hsecond.ending.trans (hfirst.ending.trans complete)) (by simp)
  have hfinish : last.current.value = .finish := by
    refine current_of_values_nil ?_
    simpa using hreads.values.symm.trans hbehind
  have hmost : last.deepest = rule.depth := by rw [hreads.deepest, zero, zero']; omega
  have hconsumed : last.cursor.consumed = rule.tokens := by
    rw [((hfirst.trans hsecond).trans hreads.toPasses).consumed, fresh.consumed, htokens,
      hcurrent, hletter, hassigned]
    rfl
  rw [readRule, dif_pos hsymbol]
  simp only [hadvance, hpast, hlast, bind, Except.bind, if_true, hfinish, hconsumed, hmost]
  rfl

end

end RuleReader

/-- A text that is read as a rule: its length, the cursor before it, and the reading. -/
theorem RuleText.parse_eq_ok {alphabet : Alphabet} {text : String} {rule : RuleText} :
    RuleText.parse alphabet text = .ok rule ↔
      text.length ≤ Limits.ruleLength ∧ ∃ cursor, Cursor.ofText alphabet text = .ok cursor ∧
        RuleReader.readRule { cursor } = .ok rule := by
  unfold parse
  rw [bind_eq_ok_iff]
  simp only [mapError_eq_ok_iff, bind_eq_ok_iff, checkLength]
  by_cases hlength : text.length ≤ Limits.ruleLength
  · simp [hlength]
  · simp [hlength]

/-- A text that is read as a rule lexes to the tokens of one. -/
theorem RuleText.sound_of_parse {alphabet : Alphabet} {text : String} {rule : RuleText}
    (h : RuleText.parse alphabet text = .ok rule) :
    text.length ≤ Limits.ruleLength ∧
      (∃ tokens, (lex alphabet text).toExcept = .ok tokens ∧
        tokens.map Spanned.value = rule.tokens) ∧ rule.WellFormed := by
  obtain ⟨hlength, cursor, hcursor, hrule⟩ := RuleText.parse_eq_ok.1 h
  obtain ⟨hahead, hpassed⟩ := Cursor.ahead_of_ofLexer hcursor
  obtain ⟨⟨position, hending⟩, hvalues, hformed⟩ :=
    RuleReader.readRule_sound (.of_passed hpassed) hrule
  rw [RuleReader.ahead, hahead] at hending hvalues
  exact ⟨hlength, ⟨_, Lexed.toExcept_eq_ok_iff.2 ⟨rfl, position, hending⟩, hvalues⟩, hformed⟩

/-- A text that lexes to the tokens of a rule is read as that rule. -/
theorem RuleText.parse_of_lex {alphabet : Alphabet} {text : String} {rule : RuleText}
    {tokens : List (Spanned Token)} (hlength : text.length ≤ Limits.ruleLength)
    (htokens : (lex alphabet text).toExcept = .ok tokens)
    (hvalues : tokens.map Spanned.value = rule.tokens) (hformed : rule.WellFormed) :
    RuleText.parse alphabet text = .ok rule := by
  obtain ⟨rfl, position, hending⟩ := Lexed.toExcept_eq_ok_iff.1 htokens
  obtain ⟨cursor, hcursor⟩ := Cursor.exists_ofLexer hending
  obtain ⟨hahead, hpassed⟩ := Cursor.ahead_of_ofLexer hcursor
  refine RuleText.parse_eq_ok.2 ⟨hlength, cursor, hcursor, ?_⟩
  refine RuleReader.readRule_complete (.of_passed hpassed) hformed
    (show cursor.ahead.ending = .complete position from ?_) ?_
  · rw [hahead]
    exact hending
  · rw [RuleReader.ahead, hahead]
    exact hvalues

/-- A rule is read where its probability is one and its text is a rule text. -/
theorem Rule.parse_eq_ok {alphabet : Alphabet} {text : String} {probability : Float}
    {rule : Rule} :
    Rule.parse alphabet text probability = .ok rule ↔
      Rule.inUnitInterval probability = true ∧ ∃ ruleText,
        RuleText.parse alphabet text = .ok ruleText ∧
          rule = Rule.ofText ruleText probability := by
  cases hp : Rule.inUnitInterval probability with
  | false =>
      constructor
      · intro h
        rw [Rule.parse, hp] at h
        cases h
      · rintro ⟨h, -⟩
        cases h
  | true =>
      simp only [Rule.parse, hp, if_true, true_and]
      constructor
      · intro h
        obtain ⟨ruleText, htext, h⟩ := bind_eq_ok_iff.1 h
        cases h
        exact ⟨ruleText, mapError_eq_ok_iff.1 htext, rfl⟩
      · rintro ⟨ruleText, htext, rfl⟩
        rw [htext]
        rfl

/-- A text is a rule if and only if it is not too long and lexes, to its end, to a symbol,
`:=` and a body whose branches are not nested too deep; its tokens are the result. -/
theorem RuleText.parse_eq_ok_iff (alphabet : Alphabet) (text : String) (rule : RuleText) :
    RuleText.parse alphabet text = .ok rule ↔
      text.length ≤ Limits.ruleLength ∧
        (∃ tokens, (lex alphabet text).toExcept = .ok tokens ∧
          tokens.map Spanned.value = rule.tokens) ∧
        ∃ letter body, rule.tokens = .symbol letter :: .assign :: body ∧
          Body body rule.depth ∧ rule.depth ≤ Limits.branchDepth := by
  constructor
  · exact RuleText.sound_of_parse
  · rintro ⟨hlength, ⟨tokens, htokens, hvalues⟩, hformed⟩
    exact RuleText.parse_of_lex hlength htokens hvalues hformed

end Lindenmayer
