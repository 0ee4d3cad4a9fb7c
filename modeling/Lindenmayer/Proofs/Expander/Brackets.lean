import Lindenmayer.Proofs.Expander.Rewriting
import Lindenmayer.Proofs.Rule.Acceptance
import Lindenmayer.Proofs.Rule.Table
import Lindenmayer.Proofs.Word.Brackets

/-!
# Expansion keeps brackets

Every rule that can be read has a body with matching brackets, so a pass only ever puts such
words for symbols (`substituted_rewrite`). Whatever is drawn, brackets keep their partners and
those without stay without (`expand_unmatched`), and each pass opens `Limits.branchDepth`
brackets more at most (`peak_of_expand`).
-/

namespace Lindenmayer

/-- The body of the rule has matching brackets, nested no deeper than rules may. -/
def Rule.Nested (rule : Rule) : Prop :=
  ∃ outline : Outline, outline.word = rule.right ∧ outline.depth ≤ Limits.branchDepth

/-- Rules that were read are nested. -/
theorem Rule.nested_of_parse {alphabet : Alphabet} {text : String} {probability : Float}
    {rule : Rule} (h : Rule.parse alphabet text probability = .ok rule) : rule.Nested := by
  obtain ⟨-, ruleText, htext, rfl⟩ := Rule.parse_eq_ok.1 h
  obtain ⟨-, -, letter, body, htokens, hbody, hdepth⟩ := RuleText.sound_of_parse htext
  obtain ⟨outline, hword, houtline⟩ := hbody.exists_outline
  refine ⟨outline, ?_, houtline ▸ hdepth⟩
  rw [hword, Rule.ofText, htokens]
  rfl

/-- Every rule of the expander is nested. -/
def Expander.Nested (expander : Expander) : Prop := expander.table.All Rule.Nested

namespace Expander

/-- Rules of a compiled table were read. -/
theorem nested_of_compile (rules : RuleSet) (policy : NoMatchPolicy) (limits : ExpansionLimits) :
    Nested ⟨rules.compile.table, policy, limits⟩ :=
  rules.all_compile fun _ _ _ h => Rule.nested_of_parse h

variable {expander : Expander}

/-- A token stays, or it is a symbol and a word with matching brackets stands for it. -/
theorem output_of_fate (nested : expander.Nested) (t : Token) (stream : RandomStream) :
    (expander.fate t stream).1.output t = [t] ∨
      ∃ letter, t = .symbol letter ∧ ∃ outline : Outline, outline.depth ≤ Limits.branchDepth ∧
        (expander.fate t stream).1.output t = outline.word := by
  rcases expander.output_cases t stream with hkept | ⟨letter, hsymbol, hout⟩
  · exact .inl hkept
  · refine .inr ⟨letter, hsymbol, ?_⟩
    rcases hout with hdropped | ⟨alternatives, hget, rule, hmem, hright⟩
    · exact ⟨.empty, Nat.zero_le _, hdropped⟩
    · obtain ⟨outline, hword, hdepth⟩ := nested.get? hget rule hmem
      exact ⟨outline, hdepth, by rw [hright, hword]⟩

/-- A pass puts words with matching brackets for symbols, and does nothing else. -/
theorem substituted_rewrite (nested : expander.Nested) (word : Word) (stream : RandomStream) :
    Substituted Limits.branchDepth word (expander.rewrite word stream).1 := by
  induction word generalizing stream with
  | nil => exact .nil
  | cons t rest ih =>
      have htail := ih (expander.fate t stream).2
      show Substituted _ _ ((expander.fate t stream).1.output t ++ _)
      rcases output_of_fate nested t stream with hkept | ⟨letter, rfl, outline, hdepth, hout⟩
      · rw [hkept]
        exact .keep htail
      · rw [hout]
        exact .replace outline hdepth htail

/-- No bracket gains or loses its partner in an expansion. -/
theorem unmatched_of_expand (nested : expander.Nested) {n : Nat} {start built : Word}
    {progress after : Progress} (h : expander.expand n start progress = (.ok built, after)) :
    built.unmatched = start.unmatched := by
  refine (expand_induction (P := fun _ word => word.unmatched = start.unmatched) ?_ rfl h).2
  intro k word stream hword
  rw [(substituted_rewrite nested word stream).unmatched_eq, hword]

/-- Each pass of an expansion opens as many brackets more as a rule may nest, at most. -/
theorem peak_of_expand (nested : expander.Nested) {n : Nat} {start built : Word}
    {progress after : Progress} (h : expander.expand n start progress = (.ok built, after)) :
    built.peak ≤ start.peak + expander.limits.iterations * Limits.branchDepth := by
  have hkeeps : ∀ k (word : Word) stream, word.peak ≤ start.peak + k * Limits.branchDepth →
      (expander.rewrite word stream).1.peak ≤ start.peak + (k + 1) * Limits.branchDepth := by
    intro k word stream hword
    have hpass := (substituted_rewrite nested word stream).peak_le {}
    rw [Nat.succ_mul, ← Nat.add_assoc]
    exact Nat.le_trans hpass (Nat.add_le_add_right hword _)
  have hstart : start.peak ≤ start.peak + 0 * Limits.branchDepth := by
    rw [Nat.zero_mul]
    exact Nat.le_refl _
  obtain ⟨hn, hbuilt⟩ := expand_induction
    (P := fun k word => word.peak ≤ start.peak + k * Limits.branchDepth) hkeeps hstart h
  have hall : n * Limits.branchDepth ≤ expander.limits.iterations * Limits.branchDepth :=
    Nat.mul_le_mul_right _ hn
  exact Nat.le_trans hbuilt (Nat.add_le_add_left hall _)

/-- Whatever is drawn, an expansion leaves as many closing and as many opening brackets
without a partner as there were in the start word. -/
theorem expand_unmatched {rules : RuleSet} {policy : NoMatchPolicy} {limits : ExpansionLimits}
    {n : Nat} {start built : Word} {progress after : Progress}
    (h : expand ⟨rules.compile.table, policy, limits⟩ n start progress = (.ok built, after)) :
    built.unmatched.closing = start.unmatched.closing ∧
      built.unmatched.opening = start.unmatched.opening ∧
      (built.count .push : Int) - built.count .pop = start.count .push - start.count .pop ∧
      (built.WellNested ↔ start.WellNested) := by
  have hsame := unmatched_of_expand (nested_of_compile rules policy limits) h
  refine ⟨by rw [hsame], by rw [hsame], ?_, ?_⟩
  · rw [built.unmatched_surplus, start.unmatched_surplus, hsame]
  · rw [built.wellNested_iff, start.wellNested_iff, hsame]

/-- Two passes over `]F[`, with a rule that nests, one that is refused and one that is drawn
at random: each of the two brackets is still without a partner. -/
theorem expand_unmatched_crossed :
    ∃ built after,
      expand ⟨(RuleSet.mk .strict
        #[⟨"F:=[F]F", 0.5⟩, ⟨"F:=[", 0.5⟩, ⟨"F:=F[+[]]", 0.25⟩]).compile.table, .drop, {}⟩ 2
        [.pop, .symbol 'F', .push] { stream := .ofSeed 3 } = (.ok built, after) ∧
      built.length = 12 ∧ built.unmatched.closing = 1 ∧ built.unmatched.opening = 1 ∧
      ¬ built.WellNested := by
  have hlength : (expand ⟨(RuleSet.mk .strict
      #[⟨"F:=[F]F", 0.5⟩, ⟨"F:=[", 0.5⟩, ⟨"F:=F[+[]]", 0.25⟩]).compile.table, .drop, {}⟩ 2
      [.pop, .symbol 'F', .push] { stream := .ofSeed 3 }).1.toOption.map List.length =
        some 12 := by decide +kernel
  rcases h : expand ⟨(RuleSet.mk .strict
    #[⟨"F:=[F]F", 0.5⟩, ⟨"F:=[", 0.5⟩, ⟨"F:=F[+[]]", 0.25⟩]).compile.table, .drop, {}⟩ 2
    [.pop, .symbol 'F', .push] { stream := .ofSeed 3 } with ⟨error | built, after⟩
  · rw [h] at hlength
    cases hlength
  · rw [h] at hlength
    obtain ⟨hclosing, hopening, -, hnested⟩ := expand_unmatched h
    refine ⟨built, after, rfl, Option.some.inj hlength, hclosing, hopening, ?_⟩
    rw [hnested, Word.wellNested_iff]
    decide

end Expander

end Lindenmayer
