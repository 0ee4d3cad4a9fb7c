import Lindenmayer.Proofs.Rule.Acceptance
import Lindenmayer.Proofs.Rule.Contents
import Lindenmayer.Rule.Set

/-!
# What becomes of the entries of a rule set

An entry is judged by its probability, then by its text, then by the valid entries before it:

* what a judgement comes to, before a table that holds the rules accepted so far
  (`judge_cases`), is what the entry deserves (`Verdict`);
* so a whole list of entries is judged with each entry in view of the valid ones before it, and
  the table holds the rules of the valid ones (`compileFrom_judged`, `compile_verdicts`);
* refused entries leave no trace, so the table is that of all rules that can be read
  (`table_compileFrom`).
-/

namespace Lindenmayer

theorem Rule.inUnitInterval_iff {p : Float} :
    inUnitInterval p = true ↔ 0.0 ≤ p ∧ p ≤ 1.0 := by
  simp [inUnitInterval]

/-- What is not a number is below nothing. -/
theorem Float.not_le_of_isNaN {p q : Float} (h : p.isNaN = true) : ¬ p ≤ q := by
  obtain ⟨model⟩ := p
  have hnan : model.unpack.isNaN = true := h
  intro hle
  have hcompare : (model.unpack.compare q.toModel.unpack).any (·.isLE) = true :=
    of_decide_eq_true hle
  cases hunpack : model.unpack with
  | notANumber =>
      rw [hunpack] at hcompare
      cases hcompare
  | infinity | zero | finite =>
      rw [hunpack] at hnan
      cases hnan

namespace Rule

variable {alphabet : Alphabet} {text : String} {p : Float}

theorem parse_of_outside (h : ¬ (0.0 ≤ p ∧ p ≤ 1.0)) :
    parse alphabet text p = .error (.probabilityOutside p) := by
  have hp : inUnitInterval p = false := by
    rw [← Bool.not_eq_true, inUnitInterval_iff]
    exact h
  rw [parse, hp]
  rfl

theorem parse_of_unreadable (h : 0.0 ≤ p ∧ p ≤ 1.0) {error : RuleError}
    (herror : RuleText.parse alphabet text = .error error) :
    parse alphabet text p = .error (.rule error) := by
  rw [parse, inUnitInterval_iff.2 h, herror]
  rfl

theorem parse_of_readable (h : 0.0 ≤ p ∧ p ≤ 1.0) {ruleText : RuleText}
    (htext : RuleText.parse alphabet text = .ok ruleText) :
    parse alphabet text p = .ok (ofText ruleText p) :=
  parse_eq_ok.2 ⟨inUnitInterval_iff.2 h, ruleText, htext, rfl⟩

theorem left_ofText {ruleText : RuleText} {letter : Char} {body : List Token}
    (h : ruleText.tokens = .symbol letter :: .assign :: body) (p : Float) :
    (ofText ruleText p).left = letter := by
  simp [ofText, h, Token.letter?]

end Rule

/-- A text is a rule for one symbol only. -/
theorem RuleText.letter_unique {alphabet : Alphabet} {text : String}
    {ruleText ruleText' : RuleText} {letter letter' : Char} {body body' : List Token}
    (htext : RuleText.parse alphabet text = .ok ruleText)
    (htokens : ruleText.tokens = .symbol letter :: .assign :: body)
    (htext' : RuleText.parse alphabet text = .ok ruleText')
    (htokens' : ruleText'.tokens = .symbol letter' :: .assign :: body') : letter = letter' := by
  rw [htext] at htext'
  cases htext'
  rw [htokens] at htokens'
  cases htokens'
  rfl

/-- The rule of an entry, if it can be read. -/
def RuleEntry.rule? (alphabet : Alphabet) (entry : RuleEntry) : Option Rule :=
  (Rule.parse alphabet entry.text entry.probability).toOption

theorem RuleEntry.rule?_of_error {alphabet : Alphabet} {entry : RuleEntry} {error : GrammarError}
    (h : Rule.parse alphabet entry.text entry.probability = .error error) :
    entry.rule? alphabet = none := by
  rw [rule?, h]
  rfl

theorem RuleEntry.rule?_of_ok {alphabet : Alphabet} {entry : RuleEntry} {rule : Rule}
    (h : Rule.parse alphabet entry.text entry.probability = .ok rule) :
    entry.rule? alphabet = some rule := by
  rw [rule?, h]
  rfl

namespace RuleSet

/-- The rules of the entries whose reports find them valid, in order. -/
def validRules (alphabet : Alphabet) (judged : List (RuleEntry × RuleReport)) : List Rule :=
  (judged.filter fun pair => pair.2.isValid).filterMap fun pair => pair.1.rule? alphabet

/-- The report says what the entry deserves, `earlier` being the rules of the valid entries
before it. -/
structure Verdict (alphabet : Alphabet) (earlier : List Rule) (entry : RuleEntry)
    (report : RuleReport) : Prop where
  text : report.text = entry.text
  valid_iff : report.isValid = true ↔
    (0.0 ≤ entry.probability ∧ entry.probability ≤ 1.0) ∧
      ∃ ruleText letter body, RuleText.parse alphabet entry.text = .ok ruleText ∧
        ruleText.tokens = .symbol letter :: .assign :: body ∧
        (earlier.countP fun rule => rule.left = letter) < Limits.rulesPerSymbol
  outside : ¬ (0.0 ≤ entry.probability ∧ entry.probability ≤ 1.0) →
    report.error? = some (.probabilityOutside entry.probability)
  unreadable : 0.0 ≤ entry.probability ∧ entry.probability ≤ 1.0 →
    ∀ error, RuleText.parse alphabet entry.text = .error error →
      report.error? = some (.rule error)
  full : 0.0 ≤ entry.probability ∧ entry.probability ≤ 1.0 →
    ∀ ruleText letter body, RuleText.parse alphabet entry.text = .ok ruleText →
      ruleText.tokens = .symbol letter :: .assign :: body →
      Limits.rulesPerSymbol ≤ (earlier.countP fun rule => rule.left = letter) →
      report.error? = some (.tooManyAlternatives letter)

section

variable {alphabet : Alphabet} {earlier : List Rule} {entry : RuleEntry}

theorem Verdict.of_outside (h : ¬ (0.0 ≤ entry.probability ∧ entry.probability ≤ 1.0))
    (index : Nat) :
    Verdict alphabet earlier entry
      ⟨index, entry.text, some (.probabilityOutside entry.probability)⟩ where
  text := rfl
  valid_iff := by simp [RuleReport.isValid, h]
  outside _ := rfl
  unreadable hp := absurd hp h
  full hp := absurd hp h

theorem Verdict.of_unreadable (h : 0.0 ≤ entry.probability ∧ entry.probability ≤ 1.0)
    {error : RuleError} (herror : RuleText.parse alphabet entry.text = .error error)
    (index : Nat) :
    Verdict alphabet earlier entry ⟨index, entry.text, some (.rule error)⟩ where
  text := rfl
  valid_iff := by simp [RuleReport.isValid, herror]
  outside hp := absurd h hp
  unreadable _ error' herror' := by
    rw [herror] at herror'
    cases herror'
    rfl
  full _ ruleText letter body htext := by
    rw [herror] at htext
    cases htext

theorem Verdict.of_full (h : 0.0 ≤ entry.probability ∧ entry.probability ≤ 1.0)
    {ruleText : RuleText} (htext : RuleText.parse alphabet entry.text = .ok ruleText)
    {letter : Char} {body : List Token}
    (htokens : ruleText.tokens = .symbol letter :: .assign :: body)
    (hfull : Limits.rulesPerSymbol ≤ earlier.countP fun rule => rule.left = letter)
    (index : Nat) :
    Verdict alphabet earlier entry ⟨index, entry.text, some (.tooManyAlternatives letter)⟩ where
  text := rfl
  valid_iff := by
    refine ⟨nofun, ?_⟩
    rintro ⟨-, ruleText', letter', body', htext', htokens', hroom⟩
    obtain rfl := RuleText.letter_unique htext htokens htext' htokens'
    exact absurd hfull (Nat.not_le_of_lt hroom)
  outside hp := absurd h hp
  unreadable _ error herror := by
    rw [htext] at herror
    cases herror
  full _ ruleText' letter' body' htext' htokens' _ := by
    obtain rfl := RuleText.letter_unique htext htokens htext' htokens'
    rfl

theorem Verdict.of_room (h : 0.0 ≤ entry.probability ∧ entry.probability ≤ 1.0)
    {ruleText : RuleText} (htext : RuleText.parse alphabet entry.text = .ok ruleText)
    {letter : Char} {body : List Token}
    (htokens : ruleText.tokens = .symbol letter :: .assign :: body)
    (hroom : (earlier.countP fun rule => rule.left = letter) < Limits.rulesPerSymbol)
    (index : Nat) :
    Verdict alphabet earlier entry ⟨index, entry.text, none⟩ where
  text := rfl
  valid_iff := ⟨fun _ => ⟨h, ruleText, letter, body, htext, htokens, hroom⟩, fun _ => rfl⟩
  outside hp := absurd h hp
  unreadable _ error herror := by
    rw [htext] at herror
    cases herror
  full _ ruleText' letter' body' htext' htokens' hfull := by
    obtain rfl := RuleText.letter_unique htext htokens htext' htokens'
    exact absurd hfull (Nat.not_le_of_lt hroom)

theorem judge_of_unreadable (table : ProductionTable) {error : GrammarError}
    (h : Rule.parse alphabet entry.text entry.probability = .error error) :
    judge alphabet table entry = .error error := by
  rw [judge, h]
  rfl

theorem judge_of_readable (table : ProductionTable) {rule : Rule}
    (h : Rule.parse alphabet entry.text entry.probability = .ok rule) :
    judge alphabet table entry = table.insert rule := by
  rw [judge, h]
  rfl

/-- An entry is accepted and its rule comes into the table, or it is refused; either way its
report says what it deserves. -/
theorem judge_cases {table : ProductionTable} (holds : table.Holds earlier) (index : Nat)
    (entry : RuleEntry) :
    (∃ rule after, judge alphabet table entry = .ok after ∧ entry.rule? alphabet = some rule ∧
      after.Holds (earlier ++ [rule]) ∧
      Verdict alphabet earlier entry ⟨index, entry.text, none⟩) ∨
    ∃ error, judge alphabet table entry = .error error ∧
      Verdict alphabet earlier entry ⟨index, entry.text, some error⟩ := by
  by_cases hp : 0.0 ≤ entry.probability ∧ entry.probability ≤ 1.0
  · cases htext : RuleText.parse alphabet entry.text with
    | error error =>
        have hjudge := judge_of_unreadable table (Rule.parse_of_unreadable hp htext)
        exact .inr ⟨_, hjudge, .of_unreadable hp htext index⟩
    | ok ruleText =>
        have hparse := Rule.parse_of_readable hp htext
        have hjudge := judge_of_readable table hparse
        obtain ⟨-, -, letter, body, htokens, -⟩ := RuleText.sound_of_parse htext
        have hleft := Rule.left_ofText htokens entry.probability
        have hcount : (table.rulesOf letter).length =
            earlier.countP fun rule => rule.left = letter := by
          rw [holds letter, List.countP_eq_length_filter]
        by_cases hroom : (earlier.countP fun rule => rule.left = letter) < Limits.rulesPerSymbol
        · obtain ⟨after, hinsert⟩ : ∃ after,
              table.insert (Rule.ofText ruleText entry.probability) = .ok after := by
            apply ProductionTable.insert_of_room
            rw [hleft, hcount]
            exact hroom
          exact .inl ⟨_, after, hjudge.trans hinsert, RuleEntry.rule?_of_ok hparse,
            holds.insert hinsert, .of_room hp htext htokens hroom index⟩
        · have hfull := Nat.le_of_not_lt hroom
          refine .inr ⟨_, ?_, .of_full hp htext htokens hfull index⟩
          rw [hjudge, ProductionTable.insert_of_full, hleft]
          rw [hleft, hcount]
          exact hfull
  · have hjudge : judge alphabet table entry = .error (.probabilityOutside entry.probability) :=
      judge_of_unreadable table (Rule.parse_of_outside hp)
    exact .inr ⟨_, hjudge, .of_outside hp index⟩

end

/-! ## Lists of entries -/

section

variable {alphabet : Alphabet}

theorem compileFrom_of_ok {table after : ProductionTable} {entry : RuleEntry}
    (h : judge alphabet table entry = .ok after) (index : Nat) (rest : List RuleEntry) :
    compileFrom alphabet index table (entry :: rest) =
      ⟨(compileFrom alphabet (index + 1) after rest).table,
        ⟨index, entry.text, none⟩ :: (compileFrom alphabet (index + 1) after rest).reports⟩ := by
  simp only [compileFrom, h]

theorem compileFrom_of_error {table : ProductionTable} {entry : RuleEntry}
    {error : GrammarError} (h : judge alphabet table entry = .error error) (index : Nat)
    (rest : List RuleEntry) :
    compileFrom alphabet index table (entry :: rest) =
      ⟨(compileFrom alphabet (index + 1) table rest).table,
        ⟨index, entry.text, some error⟩ ::
          (compileFrom alphabet (index + 1) table rest).reports⟩ := by
  simp only [compileFrom, h]

theorem validRules_cons (pair : RuleEntry × RuleReport)
    (judged : List (RuleEntry × RuleReport)) :
    validRules alphabet (pair :: judged) =
      validRules alphabet [pair] ++ validRules alphabet judged := by
  unfold validRules
  rw [← List.filterMap_append, ← List.filter_append]
  rfl

theorem validRules_refused (entry : RuleEntry) (index : Nat) (error : GrammarError) :
    validRules alphabet [(entry, ⟨index, entry.text, some error⟩)] = [] := rfl

theorem validRules_accepted {entry : RuleEntry} {rule : Rule}
    (h : entry.rule? alphabet = some rule) (index : Nat) :
    validRules alphabet [(entry, ⟨index, entry.text, none⟩)] = [rule] := by
  simp [validRules, RuleReport.isValid, h]

/-- Entries were judged, the first with the given index and behind entries whose valid rules are
`earlier`. -/
structure Judged (alphabet : Alphabet) (earlier : List Rule) (index : Nat)
    (entries : List RuleEntry) (compiled : CompiledRules) : Prop where
  length : compiled.reports.length = entries.length
  verdict : ∀ (i : Nat) (entry : RuleEntry), entries[i]? = some entry →
    ∃ report, compiled.reports[i]? = some report ∧ report.index = index + i ∧
      Verdict alphabet
        (earlier ++ validRules alphabet ((entries.zip compiled.reports).take i)) entry report
  holds : compiled.table.Holds
    (earlier ++ validRules alphabet (entries.zip compiled.reports))

theorem Judged.nil {table : ProductionTable} {earlier : List Rule}
    (holds : table.Holds earlier) (index : Nat) : Judged alphabet earlier index [] ⟨table, []⟩ where
  length := rfl
  verdict i entry h := by simp at h
  holds := by simpa [validRules] using holds

theorem Judged.cons {earlier : List Rule} {entry : RuleEntry} {entries : List RuleEntry}
    {report : RuleReport} {tail : CompiledRules} (verdict : Verdict alphabet earlier entry report)
    (htail : Judged alphabet (earlier ++ validRules alphabet [(entry, report)])
      (report.index + 1) entries tail) :
    Judged alphabet earlier report.index (entry :: entries)
      ⟨tail.table, report :: tail.reports⟩ where
  length := congrArg Nat.succ htail.length
  verdict i other h := by
    cases i with
    | zero =>
        obtain rfl : entry = other := by simpa using h
        refine ⟨report, rfl, rfl, ?_⟩
        simpa [validRules] using verdict
    | succ i =>
        obtain ⟨later, hlater, hindex, hverdict⟩ := htail.verdict i other (by simpa using h)
        refine ⟨later, by simpa using hlater, by omega, ?_⟩
        rw [List.zip_cons_cons, List.take_succ_cons, validRules_cons, ← List.append_assoc]
        exact hverdict
  holds := by
    rw [List.zip_cons_cons, validRules_cons, ← List.append_assoc]
    exact htail.holds

/-- The table and the reports grow together. The induction is on the entries, with any rules
accepted before. -/
theorem compileFrom_judged (entries : List RuleEntry) {table : ProductionTable}
    {earlier : List Rule} (holds : table.Holds earlier) (index : Nat) :
    Judged alphabet earlier index entries (compileFrom alphabet index table entries) := by
  induction entries generalizing table earlier index with
  | nil => exact .nil holds index
  | cons entry rest ih =>
      rcases judge_cases holds index entry with
        ⟨rule, after, hjudge, hrule, hafter, hverdict⟩ | ⟨error, hjudge, hverdict⟩
      · rw [compileFrom_of_ok hjudge]
        apply Judged.cons hverdict
        rw [validRules_accepted hrule]
        exact ih hafter (index + 1)
      · rw [compileFrom_of_error hjudge]
        apply Judged.cons hverdict
        rw [validRules_refused, List.append_nil]
        exact ih holds (index + 1)

/-- Refused entries leave the table as it is. -/
theorem table_compileFrom (entries : List RuleEntry) (index : Nat) (table : ProductionTable) :
    (compileFrom alphabet index table entries).table =
      (entries.filterMap fun entry => entry.rule? alphabet).foldl
        (fun table rule => (table.insert rule).toOption.getD table) table := by
  induction entries generalizing index table with
  | nil => rfl
  | cons entry rest ih =>
      cases hparse : Rule.parse alphabet entry.text entry.probability with
      | error error =>
          rw [compileFrom_of_error (judge_of_unreadable table hparse),
            List.filterMap_cons_none (RuleEntry.rule?_of_error hparse)]
          exact ih (index + 1) table
      | ok rule =>
          have hjudge := judge_of_readable table hparse
          rw [List.filterMap_cons_some (RuleEntry.rule?_of_ok hparse), List.foldl_cons]
          cases hinsert : table.insert rule with
          | error error =>
              rw [compileFrom_of_error (hjudge.trans hinsert)]
              exact ih (index + 1) table
          | ok after =>
              rw [compileFrom_of_ok (hjudge.trans hinsert)]
              exact ih (index + 1) after

end

/-- Each entry has a report with its index and its text. An entry is valid if and only if its
probability is in `[0, 1]`, its text is a rule, and the valid entries before it leave room for
one more rule of its symbol; otherwise the first of these that fails is its error. The table
gives each symbol the rules of its valid entries in order, and is the one collected from all
entries that can be read as rules. -/
theorem compile_verdicts (rules : RuleSet) :
    rules.compile.reports.length = rules.entries.toList.length ∧
    (∀ (i : Nat) (entry : RuleEntry), rules.entries.toList[i]? = some entry →
      ∃ report, rules.compile.reports[i]? = some report ∧ report.index = i ∧
        Verdict rules.alphabet
          (validRules rules.alphabet
            ((rules.entries.toList.zip rules.compile.reports).take i)) entry report ∧
        (entry.probability.isNaN = true →
          report.error? = some (.probabilityOutside entry.probability))) ∧
    (∀ symbol, (rules.compile.table.get? symbol).map Alternatives.toList =
      let own := (validRules rules.alphabet
        (rules.entries.toList.zip rules.compile.reports)).filter fun rule => rule.left = symbol
      if own = [] then none else some own) ∧
    rules.compile.table =
      .ofRules (rules.entries.toList.filterMap fun entry => entry.rule? rules.alphabet) := by
  have hjudged : Judged rules.alphabet [] 0 rules.entries.toList rules.compile :=
    compileFrom_judged rules.entries.toList ProductionTable.holds_empty 0
  refine ⟨hjudged.length, ?_, ?_, ?_⟩
  · intro i entry hentry
    obtain ⟨report, hreport, hindex, hverdict⟩ := hjudged.verdict i entry hentry
    refine ⟨report, hreport, by omega, hverdict, ?_⟩
    intro hnan
    apply hverdict.outside
    intro hp
    exact Float.not_le_of_isNaN hnan hp.2
  · intro symbol
    have hown := hjudged.holds symbol
    rw [List.nil_append] at hown
    rw [ProductionTable.map_toList_get?, hown]
  · exact table_compileFrom rules.entries.toList 0 .empty

end RuleSet

end Lindenmayer
