import Lindenmayer.Proofs.Generation.Refused
import Lindenmayer.Proofs.Token.Pieces

/-!
# What the codes of errors say of a run

The registry calls a code fatal or survivable. What it says of the errors of a run:

* lexical and syntax errors, and whatever else a rule can be refused for, have survivable codes
  (`RuleError.survivable_code`, `RuleSet.survivable_of_fault?`);
* the errors of the turtle's numbers, of limits and of brackets have fatal ones, and so has the
  error of an empty start text;
* a start text that cannot be read ends a run with the error of a text, so with the code that
  a rule would survive with; it is the only way that a run ends with such a code
  (`failure_codes`).
-/

namespace Lindenmayer

namespace Code

/-- The run cannot go on. -/
def IsFatal (code : Code) : Prop := code.halts = true ∧ code.recoverable = false

/-- The run goes on. -/
def IsSurvivable (code : Code) : Prop := code.recoverable = true ∧ code.halts = false

theorem IsSurvivable.not_isFatal {code : Code} (h : code.IsSurvivable) : ¬ code.IsFatal := by
  intro hfatal
  have hhalts := hfatal.1
  rw [h.2] at hhalts
  cases hhalts

end Code

/-! ## Errors of texts and rules -/

theorem LexicalError.survivable_code (error : LexicalError) : error.code.IsSurvivable := by
  cases error with
  | invalidCharacter | tooLong => exact ⟨rfl, rfl⟩

theorem RuleError.survivable_code (error : RuleError) : error.code.IsSurvivable := by
  cases error with
  | lexical error => exact error.survivable_code
  | missingSymbol | missingAssignment | unclosedBranch | unmatchedClose | unexpectedToken
  | tooDeep => exact ⟨rfl, rfl⟩

/-- A rule is refused for its probability or for its text. -/
theorem Rule.survivable_of_parse {alphabet : Alphabet} {text : String} {p : Float}
    {error : GrammarError} (h : Rule.parse alphabet text p = .error error) :
    error.code.IsSurvivable := by
  by_cases hp : 0.0 ≤ p ∧ p ≤ 1.0
  · cases htext : RuleText.parse alphabet text with
    | error reason =>
        rw [parse_of_unreadable hp htext] at h
        cases h
        exact reason.survivable_code
    | ok ruleText =>
        rw [parse_of_readable hp htext] at h
        cases h
  · rw [parse_of_outside hp] at h
    cases h
    exact ⟨rfl, rfl⟩

namespace RuleSet

theorem survivable_of_fault? {alphabet : Alphabet} {earlier : List Rule} {entry : RuleEntry}
    {error : GrammarError} (h : fault? alphabet earlier entry = some error) :
    error.code.IsSurvivable := by
  cases hparse : Rule.parse alphabet entry.text entry.probability with
  | error reason =>
      rw [fault?_of_error hparse] at h
      cases h
      exact Rule.survivable_of_parse hparse
  | ok rule =>
      rw [fault?_of_ok hparse] at h
      split at h <;> cases h
      exact ⟨rfl, rfl⟩

/-- Whatever is reported of a rule, the run goes on without it. -/
theorem survivable_of_report (rules : RuleSet) {report : RuleReport}
    (hreport : report ∈ rules.compile.reports) {error : GrammarError}
    (herror : report.error? = some error) : error.code.IsSurvivable := by
  obtain ⟨i, hi⟩ := List.mem_iff_getElem?.1 hreport
  rw [reports_compile, Option.map_eq_some_iff] at hi
  obtain ⟨entry, -, rfl⟩ := hi
  exact survivable_of_fault? herror

end RuleSet

/-! ## Errors that end a run -/

theorem ConfigError.fatal_code (error : ConfigError) : error.code.IsFatal := by
  cases error with
  | unreadable | invalidDefinition | invalidParameter => exact ⟨rfl, rfl⟩

theorem LimitError.fatal_code (error : LimitError) : error.code.IsFatal := by
  rcases error with ⟨_ | _, value, limit⟩
  · exact ⟨rfl, rfl⟩
  · exact ⟨rfl, rfl⟩

theorem StructuralError.fatal_code (error : StructuralError) : error.code.IsFatal := by
  cases error with
  | unmatchedPop | unclosedBranches | stackOverflow => exact ⟨rfl, rfl⟩

/-- A start text is refused for its tokens or for having none. -/
theorem Word.cases_of_parse_error {text : String} {error : GrammarError}
    (h : Word.parse text = .error error) :
    (∃ reason, error = .rule reason) ∨ error = .emptyStart := by
  unfold Word.parse at h
  rcases bind_eq_error_iff.1 h with h | ⟨tokens, -, h⟩
  · obtain ⟨reason, -, rfl⟩ := mapError_eq_error_iff.1 h
    exact .inl ⟨_, rfl⟩
  split at h
  · cases h
    exact .inl ⟨_, rfl⟩
  · cases tokens with
    | nil =>
        cases h
        exact .inr rfl
    | cons => cases h

/-- The run ended because its start text could not be read. -/
def GenerationError.IsUnreadableStart (error : GenerationError) : Prop :=
  ∃ reason, error = .start (.rule reason)

theorem GenerationError.not_isUnreadableStart_structural (reason : StructuralError) :
    ¬ (structural reason).IsUnreadableStart := by
  rintro ⟨_, hstart⟩
  cases hstart

namespace Definition

variable {definition : Definition} {preferences : Preferences} {error : GenerationError}

/-- The run ends with the error, in the expansion or in the walk along its word. -/
def Fails (definition : Definition) (preferences : Preferences) {σ : Type}
    (builder : CurveBuilder σ) (drawing : σ) (error : GenerationError) : Prop :=
  (definition.expand preferences).outcome = .error error ∨
    (definition.generate preferences builder drawing).outcome = .error error

/-- Behind an expansion that succeeds, only the brackets can be wrong. -/
theorem Fails.cases {σ : Type} {builder : CurveBuilder σ} {drawing : σ}
    (h : definition.Fails preferences builder drawing error) :
    (definition.expand preferences).outcome = .error error ∨
      (∃ expansion, (definition.expand preferences).outcome = .ok expansion) ∧
        ∃ reason, error = .structural reason := by
  rcases h with h | h
  · exact .inl h
  cases hexpand : (definition.expand preferences).outcome with
  | error reason =>
      rw [generate_of_expand_error hexpand] at h
      cases h
      exact .inl rfl
  | ok expansion =>
      rw [generate_of_expand hexpand] at h
      split at h <;> cases h
      exact .inr ⟨⟨expansion, rfl⟩, _, rfl⟩

/-- What goes wrong in an expansion is fatal, unless it is the start text that cannot be read. -/
theorem code_of_expand_error (h : (definition.expand preferences).outcome = .error error) :
    (error.code.IsFatal ∧ ¬ error.IsUnreadableStart) ∨
      (error.code.IsSurvivable ∧ error.IsUnreadableStart) := by
  cases error with
  | config reason => exact .inl ⟨reason.fatal_code, fun ⟨_, hstart⟩ => by cases hstart⟩
  | expansion reason => exact .inl ⟨reason.fatal_code, fun ⟨_, hstart⟩ => by cases hstart⟩
  | structural reason =>
      exact .inl ⟨reason.fatal_code, GenerationError.not_isUnreadableStart_structural reason⟩
  | start reason =>
      rcases Word.cases_of_parse_error (expand_eq_start_iff.1 h).2 with ⟨reason, rfl⟩ | rfl
      · exact .inr ⟨reason.survivable_code, reason, rfl⟩
      · exact .inl ⟨⟨rfl, rfl⟩, fun ⟨_, hstart⟩ => by cases hstart⟩

theorem Fails.code {σ : Type} {builder : CurveBuilder σ} {drawing : σ}
    (h : definition.Fails preferences builder drawing error) :
    (error.code.IsFatal ∧ ¬ error.IsUnreadableStart) ∨
      (error.code.IsSurvivable ∧ error.IsUnreadableStart) := by
  rcases h.cases with hexpand | ⟨-, reason, rfl⟩
  · exact code_of_expand_error hexpand
  · exact .inl ⟨reason.fatal_code, GenerationError.not_isUnreadableStart_structural reason⟩

/-- A definition whose numbers are in range and whose start text cannot be read fails for that
text, and nothing else fails so. -/
theorem Fails.isUnreadableStart_iff {σ : Type} {builder : CurveBuilder σ} {drawing : σ}
    (h : definition.Fails preferences builder drawing error) :
    error.IsUnreadableStart ↔ definition.turtle.validate = .ok () ∧
      ∃ reason, Word.parse definition.grammar.start = .error (.rule reason) := by
  constructor
  · rintro ⟨reason, rfl⟩
    rcases h.cases with hexpand | ⟨-, _, hstructural⟩
    · obtain ⟨hvalid, hparse⟩ := expand_eq_start_iff.1 hexpand
      exact ⟨hvalid, reason, hparse⟩
    · cases hstructural
  · rintro ⟨hvalid, reason, hparse⟩
    have hstart : (definition.expand preferences).outcome = .error (.start (.rule reason)) :=
      expand_eq_start_iff.2 ⟨hvalid, hparse⟩
    rcases h.cases with hexpand | ⟨⟨expansion, hexpand⟩, -⟩
    · rw [hstart] at hexpand
      cases hexpand
      exact ⟨reason, rfl⟩
    · rw [hstart] at hexpand
      cases hexpand

end Definition

/-- Whatever is reported of rules has a survivable code. What ends a run has a fatal one, unless
the run ended because the start text could not be read: the error is then that of a text, whose
code says that a run survives it. -/
theorem failure_codes (rules : RuleSet) {definition : Definition} {preferences : Preferences}
    {σ : Type} {builder : CurveBuilder σ} {drawing : σ} {error : GenerationError}
    (h : definition.Fails preferences builder drawing error) :
    (error.code.IsFatal ↔ ¬ error.IsUnreadableStart) ∧
    (error.code.IsSurvivable ↔ error.IsUnreadableStart) ∧
    (error.IsUnreadableStart ↔ definition.turtle.validate = .ok () ∧
      ∃ reason, Word.parse definition.grammar.start = .error (.rule reason)) ∧
    ∀ report ∈ rules.compile.reports, ∀ reason, report.error? = some reason →
      reason.code.IsSurvivable := by
  refine ⟨?_, ?_, h.isUnreadableStart_iff,
    fun report hreport reason hreason => rules.survivable_of_report hreport hreason⟩
  · rcases h.code with ⟨hfatal, hother⟩ | ⟨hsurvivable, hstart⟩
    · exact iff_of_true hfatal hother
    · exact iff_of_false hsurvivable.not_isFatal (not_not_intro hstart)
  · rcases h.code with ⟨hfatal, hother⟩ | ⟨hsurvivable, hstart⟩
    · exact iff_of_false (fun hsurvivable => hsurvivable.not_isFatal hfatal) hother
    · exact iff_of_true hsurvivable hstart

/-- No token starts with a percent sign. -/
theorem Word.parse_misprint :
    Word.parse "F%" = .error (.rule (.lexical (.invalidCharacter '%' ⟨1, 1, 2⟩))) := by
  have hcuts : Alphabet.extended.Cuts "F%".toList [.token (.symbol 'F')] ['%'] :=
    ⟨by decide, by decide, Alphabet.halts_cons_iff.2 ⟨by decide, _, rfl⟩⟩
  have hlex : tokenize .extended "F%" = .error (.invalidCharacter '%' ⟨1, 1, 2⟩) :=
    (tokenize_eq_error_iff_cuts (by decide)).2
      ⟨_, '%', [], _, hcuts, ⟨by decide, by decide, by decide⟩, rfl⟩
  rw [Word.parse, Analyzer.fst_tokenizeSequence, hlex]
  rfl

/-- The text `F%` cannot be read, so that no run starts with it. -/
theorem failure_codes_misprint :
    let definition : Definition := { grammar := { start := "F%" } }
    let rules : RuleSet := ⟨.strict, #[⟨"F:=]", 1.0⟩]⟩
    let error : GenerationError :=
      .start (.rule (.lexical (.invalidCharacter '%' ⟨1, 1, 2⟩)))
    definition.Fails {} CurveBuilder.recorder #[] error ∧ error.code.IsSurvivable ∧
      ∀ report ∈ rules.compile.reports, ∀ reason, report.error? = some reason →
        reason.code.IsSurvivable := by
  intro definition rules error
  have hsome : definition.turtle.validate.toOption = some () := by decide +kernel
  have hfails : definition.Fails {} CurveBuilder.recorder #[] error :=
    .inl (Definition.expand_eq_start_iff.2 ⟨toOption_eq_some_iff.1 hsome, Word.parse_misprint⟩)
  obtain ⟨-, hsurvivable, -, hreports⟩ := failure_codes rules hfails
  exact ⟨hfails, hsurvivable.2 ⟨_, rfl⟩, hreports⟩

/-- Not every error that ends a run has a code that says so. -/
theorem exists_failure_not_fatal :
    ¬ ∀ (definition : Definition) (error : GenerationError),
      (definition.expand {}).outcome = .error error → error.code.IsFatal := by
  intro hall
  let definition : Definition := { grammar := { start := "F%" } }
  have hsome : definition.turtle.validate.toOption = some () := by decide +kernel
  have hfatal := hall definition _
    (Definition.expand_eq_start_iff.2 ⟨toOption_eq_some_iff.1 hsome, Word.parse_misprint⟩)
  cases hfatal.1

end Lindenmayer
