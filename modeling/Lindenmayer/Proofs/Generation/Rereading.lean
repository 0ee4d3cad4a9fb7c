import Lindenmayer.Proofs.Expander.Rewriting
import Lindenmayer.Proofs.Generation.Stages
import Lindenmayer.Proofs.Rule.Printing
import Lindenmayer.Proofs.Rule.Table

/-!
# Expanded words as start words

What stands in an expanded word stood in the start word or stands in the body of a rule
(`Expander.mem_rewrite`). Start words and bodies are made of letters, direction marks and brackets
(`Word.isOfWords_of_parse`, `Rule.worded_of_parse`), so expanded words are
(`Expander.isOfWords_of_expand`), and their texts can be start words again (`reread_exact`).
-/

namespace Lindenmayer

/-- The body of the rule is a word. -/
def Rule.Worded (rule : Rule) : Prop := ∀ t ∈ rule.right, t.isOfWords = true

/-- The bodies of rules that were read are words. -/
theorem Rule.worded_of_parse {alphabet : Alphabet} {text : String} {probability : Float}
    {rule : Rule} (h : Rule.parse alphabet text probability = .ok rule) : rule.Worded :=
  (Rule.printable_of_parse h).isOfWords

namespace Expander

variable {expander : Expander}

/-- A token stands after a pass because it stood before it or because a rule has it. -/
theorem mem_rewrite {word : Word} {stream : RandomStream} {t : Token}
    (h : t ∈ (expander.rewrite word stream).1) :
    t ∈ word ∨ ∃ symbol alternatives, expander.table.get? symbol = some alternatives ∧
      ∃ rule ∈ alternatives.toList, t ∈ rule.right := by
  induction word generalizing stream with
  | nil => cases h
  | cons s rest ih =>
      have hparts : t ∈ (expander.fate s stream).1.output s ++
          (expander.rewrite rest (expander.fate s stream).2).1 := h
      rcases List.mem_append.1 hparts with hout | htail
      · rcases expander.output_cases s stream with hkept | ⟨symbol, -, hgone | hbody⟩
        · rw [hkept, List.mem_singleton] at hout
          exact .inl (hout ▸ List.mem_cons_self)
        · rw [hgone] at hout
          cases hout
        · obtain ⟨alternatives, hget, rule, hrule, hright⟩ := hbody
          rw [hright] at hout
          exact .inr ⟨symbol, alternatives, hget, rule, hrule, hout⟩
      · rcases ih htail with hrest | hrule
        · exact .inl (List.mem_cons_of_mem _ hrest)
        · exact .inr hrule

/-- With rules whose bodies are words, a word becomes a word, whatever is drawn. -/
theorem isOfWords_of_expand (worded : expander.table.All Rule.Worded) {n : Nat}
    {start built : Word} {progress after : Progress}
    (hstart : ∀ t ∈ start, t.isOfWords = true)
    (h : expander.expand n start progress = (.ok built, after)) :
    ∀ t ∈ built, t.isOfWords = true := by
  refine (expand_induction (P := fun _ word => ∀ t ∈ word, t.isOfWords = true) ?_ hstart h).2
  intro k word stream hword t ht
  rcases mem_rewrite ht with hold | ⟨symbol, alternatives, hget, rule, hrule, hright⟩
  · exact hword t hold
  · exact worded.get? hget rule hrule t hright

end Expander

/-- An expanded word is made of the tokens of words. -/
theorem Definition.isOfWords_of_expand {definition : Definition} {preferences : Preferences}
    {expansion : Expansion} (h : (definition.expand preferences).outcome = .ok expansion) :
    ∀ t ∈ expansion.word, t.isOfWords = true := by
  obtain ⟨-, start, progress, hstart, hword, -⟩ := expand_eq_ok h
  have hworded : (definition.expander preferences).table.All Rule.Worded :=
    (definition.ruleSet preferences).all_compile fun _ _ _ hparse =>
      Rule.worded_of_parse hparse
  exact Expander.isOfWords_of_expand hworded (Word.isOfWords_of_parse hstart) hword

/-- What is printed can be read again. An expanded word has letters, direction marks and brackets
and nothing else, and where it is not empty and not too long, its text is that of a start word
and that start word is the expanded word. The same goes for all words made of such tokens, and a
start word that was read has the text it was read from, without its blanks. -/
theorem reread_exact :
    (∀ (definition : Definition) (preferences : Preferences) (expansion : Expansion),
      (definition.expand preferences).outcome = .ok expansion →
      (∀ t ∈ expansion.word, t.isOfWords = true) ∧
      (expansion.word ≠ [] → expansion.word.length ≤ Limits.ruleLength →
        Word.parse (Word.text expansion.word) = .ok expansion.word)) ∧
    (∀ word : Word, word ≠ [] → word.length ≤ Limits.ruleLength →
      (∀ t ∈ word, t.isOfWords = true) → Word.parse (Word.text word) = .ok word) ∧
    ∀ (source : String) (word : Word), Word.parse source = .ok word →
      (Word.text word).toList = source.toList.filter fun c => !Text.isBlank c := by
  refine ⟨?_, fun word hne hlength hword => Word.parse_text hne hlength hword,
    fun source word hparse => Word.text_of_parse hparse⟩
  intro definition preferences expansion hexpand
  have hword := Definition.isOfWords_of_expand hexpand
  exact ⟨hword, fun hne hlength => Word.parse_text hne hlength hword⟩

/-- Blanks in the start word, a rule that makes its symbol go, and one that is drawn at random. -/
def Definition.pruned : Definition where
  grammar :=
    { start := "X [ /F ]"
      rules := [⟨"F:=F[+F]X", 0.5⟩, ⟨"X:=", 1.0⟩, ⟨"F:=[-F]F", 0.5⟩]
      iterations := 2
      seed := 7 }

theorem reread_exact_pruned :
    ∃ expansion, (Definition.pruned.expand {}).outcome = .ok expansion ∧
      expansion.word.length = 18 ∧ Word.parse (Word.text expansion.word) = .ok expansion.word ∧
      ∃ start, Word.parse Definition.pruned.grammar.start = .ok start ∧
        (Word.text start).toList = ['X', '[', '/', 'F', ']'] := by
  obtain ⟨hexpanded, -, hsource⟩ := reread_exact
  have hlength : (Definition.pruned.expand {}).outcome.toOption.map (fun expansion =>
      expansion.word.length) = some 18 := by decide +kernel
  have hstart : (Word.parse Definition.pruned.grammar.start).toOption =
      some [.symbol 'X', .push, .direction ⟨.roll, false⟩, .symbol 'F', .pop] := by
    decide +kernel
  cases hexpand : (Definition.pruned.expand {}).outcome with
  | error error =>
      rw [hexpand] at hlength
      cases hlength
  | ok expansion =>
      rw [hexpand] at hlength
      have hsize : expansion.word.length = 18 := Option.some.inj hlength
      have hne : expansion.word ≠ [] := by
        intro hempty
        rw [hempty] at hsize
        cases hsize
      have hshort : expansion.word.length ≤ Limits.ruleLength := by
        rw [hsize]
        decide
      have hparse := toOption_eq_some_iff.1 hstart
      refine ⟨expansion, rfl, hsize, (hexpanded _ _ _ hexpand).2 hne hshort, _, hparse, ?_⟩
      rw [hsource _ _ hparse]
      decide +kernel

end Lindenmayer
