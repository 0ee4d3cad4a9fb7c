import Lindenmayer.Proofs.Token.Text
import Lindenmayer.Word

/-!
# Start words

What a text must be to be read as a start word (`Word.parse_eq_ok`), and how long the word
can be (`Word.length_of_parse`).
-/

namespace Lindenmayer.Word

/-- A start word is the tokens of a text. There are some, and none of them is `:=`. -/
theorem parse_eq_ok {text : String} {word : Word} :
    parse text = .ok word ↔
      ∃ tokens, tokenize .extended text = .ok tokens ∧ tokens.map Spanned.value = word ∧
        Token.assign ∉ word ∧ word ≠ [] := by
  unfold parse
  rw [Analyzer.fst_tokenizeSequence, bind_eq_ok_iff]
  simp only [mapError_eq_ok_iff]
  refine exists_congr fun tokens => and_congr_right fun _ => ?_
  split
  · next t hfind =>
    have hassign : t.value = .assign := by simpa using List.find?_some hfind
    have hmem := List.mem_of_find?_eq_some hfind
    constructor
    · intro h
      cases h
    · rintro ⟨rfl, hnone, -⟩
      exact absurd (List.mem_map.2 ⟨t, hmem, hassign⟩) hnone
  · next hfind =>
    have hnone : Token.assign ∉ tokens.map Spanned.value := by
      simpa [List.find?_eq_none] using hfind
    cases tokens with
    | nil =>
        constructor
        · intro h
          cases h
        · rintro ⟨rfl, -, hne⟩
          exact absurd rfl hne
    | cons t rest =>
        constructor
        · intro h
          cases h
          exact ⟨rfl, hnone, by simp⟩
        · rintro ⟨rfl, -, -⟩
          rfl

/-- A start word has no more tokens than a text may have characters. -/
theorem length_of_parse {text : String} {word : Word} (h : parse text = .ok word) :
    word.length ≤ Limits.ruleLength := by
  obtain ⟨tokens, htokens, rfl, -⟩ := parse_eq_ok.1 h
  rw [List.length_map]
  exact length_of_tokenize htokens

end Lindenmayer.Word
