import Lindenmayer.Proofs.Rule.Compiling
import Lindenmayer.Proofs.Word.Brackets
import Lindenmayer.Proofs.Word.Printing

/-!
# Rules and their texts

A rule whose symbol is a letter and whose body is a word with matching brackets can be printed and
read again, as long as the text is not too long and the branches are not nested too deep
(`Rule.Printable`).

* A word whose brackets match is a body, nested as deep as its brackets are (`Body.of_outline`).
* The text of a rule is one piece for each of its tokens, so it lexes to them
  (`Rule.exists_lex_text`), and a printable rule is read from it (`Rule.parse_text`).
* Rules that were read are printable (`Rule.printable_of_parse`), so printing and reading undo
  each other, blanks aside (`Rule.parse_text_exact`).
-/

namespace Lindenmayer

/-- Matching brackets about tokens of words are the branches of a body. -/
theorem Body.of_outline {outline : Outline} (h : ∀ t ∈ outline.word, t.isOfWords = true) :
    Body outline.word outline.depth := by
  induction outline with
  | empty => exact .empty
  | plain t unbracketed rest ih =>
      have hrest : Body rest.word rest.depth := ih fun s hs => h s (List.mem_cons_of_mem _ hs)
      have ht := h t List.mem_cons_self
      cases t with
      | symbol letter => exact .symbol hrest
      | direction turn => exact .direction hrest
      | push | pop => cases unbracketed
      | assign | finish => cases ht
  | group inner rest ihInner ihRest =>
      refine .branch (ihInner fun s hs => h s ?_) (ihRest fun s hs => h s ?_)
      · exact List.mem_cons_of_mem _ (List.mem_append_left _ hs)
      · exact List.mem_cons_of_mem _ (List.mem_append_right _ (List.mem_cons_of_mem _ hs))

namespace Rule

/-- The tokens of the text of the rule. -/
def tokens (rule : Rule) : List Token := .symbol rule.left :: .assign :: rule.right

/-- The rule has a text that can be read over the alphabet. -/
structure Printable (alphabet : Alphabet) (rule : Rule) : Prop where
  left : rule.left.isAlpha = true
  right : ∀ t ∈ rule.right, alphabet.hasToken t = true ∧ t ≠ .assign
  nested : Word.WellNested rule.right
  depth : Word.peak rule.right ≤ Limits.branchDepth
  length : rule.right.length + 3 ≤ Limits.ruleLength
  probability : 0.0 ≤ rule.probability ∧ rule.probability ≤ 1.0

variable {alphabet : Alphabet} {rule : Rule}

theorem toList_text (rule : Rule) : rule.text.toList = rule.tokens.flatMap Token.chars := by
  simp [text, rightText, tokens, Token.chars, Char.toString]

theorem Printable.isOfWords (h : rule.Printable alphabet) : ∀ t ∈ rule.right, t.isOfWords = true :=
  fun t ht => Alphabet.isOfWords_of_hasToken (h.right t ht).1 (h.right t ht).2

theorem Printable.hasToken (h : rule.Printable alphabet) :
    ∀ t ∈ rule.tokens, alphabet.hasToken t = true := by
  intro t ht
  rcases List.mem_cons.1 ht with rfl | ht
  · exact h.left
  rcases List.mem_cons.1 ht with rfl | ht
  · rfl
  · exact (h.right t ht).1

/-- Besides the symbol and the two characters of `:=`, there is one character for each token. -/
theorem length_text (h : ∀ t ∈ rule.right, t.isOfWords = true) :
    rule.text.length = rule.right.length + 3 := by
  rw [← String.length_toList, toList_text, tokens, List.flatMap_cons, List.flatMap_cons,
    List.length_append, List.length_append, Word.length_flatMap_chars h]
  show 1 + (2 + rule.right.length) = _
  omega

/-- The text of a rule lexes to the tokens of the rule. -/
theorem exists_lex_text (h : rule.Printable alphabet) :
    ∃ spanned, (lex alphabet rule.text).toExcept = .ok spanned ∧
      spanned.map Spanned.value = rule.tokens := by
  have hsplit : alphabet.Splits rule.text.toList (rule.tokens.map .token) := by
    rw [toList_text]
    exact Alphabet.splits_chars h.hasToken
  refine ⟨_, (Alphabet.splits_iff_cuts.1 hsplit).toExcept_lex, ?_⟩
  rw [Piece.values_spannedAll, List.filterMap_map]
  exact List.filterMap_some

theorem Printable.exists_outline (h : rule.Printable alphabet) :
    ∃ outline : Outline, outline.word = rule.right ∧ outline.depth ≤ Limits.branchDepth := by
  obtain ⟨outline, hword⟩ := h.nested
  refine ⟨outline, hword, ?_⟩
  -- with no bracket open before, the peak of a word is the depth of its outline
  have hroom : ({} : Unmatched).peak rule.right ≤ Limits.branchDepth := h.depth
  rw [← hword, outline.peak_word] at hroom
  exact Nat.le_trans (Nat.le_add_left ..) hroom

theorem parse_text (h : rule.Printable alphabet) :
    parse alphabet rule.text rule.probability = .ok rule := by
  obtain ⟨outline, hword, hdepth⟩ := h.exists_outline
  have hbody : Body rule.right outline.depth := by
    rw [← hword]
    exact .of_outline (hword ▸ h.isOfWords)
  have hlength : rule.text.length ≤ Limits.ruleLength := by
    rw [length_text h.isOfWords]
    exact h.length
  obtain ⟨spanned, hlex, hvalues⟩ := exists_lex_text h
  have hread : RuleText.parse alphabet rule.text = .ok ⟨rule.tokens, outline.depth⟩ :=
    RuleText.parse_of_lex hlength hlex hvalues ⟨rule.left, rule.right, rfl, hbody, hdepth⟩
  exact parse_of_readable h.probability hread

/-- The tokens of a rule that was read are those of its text. -/
theorem tokens_of_parse {source : String} {p : Float} (h : parse alphabet source p = .ok rule) :
    ∃ spanned, (lex alphabet source).toExcept = .ok spanned ∧
      spanned.map Spanned.value = rule.tokens := by
  obtain ⟨-, ruleText, htext, rfl⟩ := parse_eq_ok.1 h
  obtain ⟨-, ⟨spanned, hlex, hvalues⟩, letter, body, htokens, -⟩ :=
    RuleText.sound_of_parse htext
  refine ⟨spanned, hlex, ?_⟩
  rw [hvalues, tokens, ofText, htokens]
  rfl

/-- The text of a rule that was read is what it was read from, without the blanks. -/
theorem text_of_parse {source : String} {p : Float} (h : parse alphabet source p = .ok rule) :
    rule.text.toList = source.toList.filter fun c => !Text.isBlank c := by
  obtain ⟨spanned, hlex, hvalues⟩ := tokens_of_parse h
  obtain ⟨pieces, hsplit, rfl⟩ := Alphabet.exists_splits_of_lex hlex
  rw [toList_text, ← hvalues, Piece.values_spannedAll]
  exact hsplit.filter_eq.symm

/-- A rule that was read can be printed. -/
theorem printable_of_parse {source : String} {p : Float}
    (h : parse alphabet source p = .ok rule) : rule.Printable alphabet := by
  obtain ⟨spanned, hlex, hvalues⟩ := tokens_of_parse h
  have hhas := Alphabet.hasToken_of_lex hlex
  rw [hvalues] at hhas
  have hprinted := text_of_parse h
  obtain ⟨hp, ruleText, htext, rfl⟩ := parse_eq_ok.1 h
  obtain ⟨hlength, -, letter, body, htokens, hbody, hdepth⟩ := RuleText.sound_of_parse htext
  have hright : (ofText ruleText p).right = body := by
    rw [ofText, htokens]
    rfl
  obtain ⟨outline, hword, houtline⟩ := hbody.exists_outline
  have hright' : ∀ t ∈ (ofText ruleText p).right, alphabet.hasToken t = true ∧ t ≠ .assign := by
    intro t ht
    refine ⟨hhas t (List.mem_cons_of_mem _ (List.mem_cons_of_mem _ ht)), ?_⟩
    rintro rfl
    exact hbody.assign_not_mem (hright ▸ ht)
  refine ⟨hhas (.symbol _) List.mem_cons_self, hright', ⟨outline, hright ▸ hword⟩, ?_, ?_,
    inUnitInterval_iff.1 hp⟩
  · show ({} : Unmatched).peak _ ≤ _
    rw [hright, ← hword, outline.peak_word, houtline, Nat.zero_add]
    exact hdepth
  · -- the printed text is no longer than the text that was read
    rw [← length_text fun t ht => Alphabet.isOfWords_of_hasToken (hright' t ht).1 (hright' t ht).2,
      ← String.length_toList, hprinted]
    exact Nat.le_trans (List.length_filter_le ..) (by rwa [String.length_toList])

/-- Rules survive printing and reading. A letter, a word with matching brackets and a probability
are read from their text as they are, where the text is not too long and the branches are not
nested too deep. A rule that was read has the text it was read from, without the blanks, and is
read from that text again. -/
theorem parse_text_exact (alphabet : Alphabet) :
    (∀ rule : Rule, rule.Printable alphabet →
      parse alphabet rule.text rule.probability = .ok rule) ∧
    ∀ (source : String) (p : Float) (rule : Rule), parse alphabet source p = .ok rule →
      (rule.text.toList = source.toList.filter fun c => !Text.isBlank c) ∧
      parse alphabet rule.text p = .ok rule := by
  refine ⟨fun rule h => parse_text h, ?_⟩
  intro source p rule h
  refine ⟨text_of_parse h, ?_⟩
  have hp : rule.probability = p := by
    obtain ⟨-, ruleText, -, rfl⟩ := parse_eq_ok.1 h
    rfl
  rw [← hp]
  exact parse_text (printable_of_parse h)

/-- A rule with as many branches one inside the other as there may be. -/
def deepest : Rule where
  left := 'F'
  right := List.replicate 256 .push ++ .symbol 'G' :: List.replicate 256 .pop
  probability := 0.5

theorem parse_text_exact_deepest :
    deepest.Printable .strict ∧ Word.peak deepest.right = 256 ∧
      parse .strict deepest.text 0.5 = .ok deepest ∧
      ∃ rule, parse .strict " X := [ +F ]\n" 0.5 = .ok rule ∧
        rule.text.toList = ['X', ':', '=', '[', '+', 'F', ']'] ∧
        parse .strict rule.text 0.5 = .ok rule := by
  obtain ⟨hprinted, hread⟩ := parse_text_exact .strict
  have hnested : Word.WellNested deepest.right := by
    rw [Word.wellNested_iff]
    decide +kernel
  have hprintable : deepest.Printable .strict :=
    ⟨by decide, by decide +kernel, hnested, by decide +kernel, by decide +kernel,
      by decide +kernel⟩
  cases hparse : parse .strict " X := [ +F ]\n" 0.5 with
  | error error =>
      have hok : (parse .strict " X := [ +F ]\n" 0.5).isOk = true := by decide +kernel
      rw [hparse] at hok
      cases hok
  | ok rule =>
      obtain ⟨htext, hagain⟩ := hread _ _ _ hparse
      refine ⟨hprintable, by decide +kernel, hprinted _ hprintable, rule, rfl, ?_, hagain⟩
      rw [htext]
      decide +kernel

end Rule

end Lindenmayer
