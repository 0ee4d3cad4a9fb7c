import Lindenmayer.Proofs.Token.Pieces
import Lindenmayer.Proofs.Word.Reading

/-!
# Words and their texts

Words are made of letters, direction marks and brackets (`Token.isOfWords`). The text of such a
word is one piece for each of its tokens, so the word is read back from it (`Word.parse_text`),
and the word that is read from a text has that text without its blanks (`Word.text_of_parse`).
-/

namespace Lindenmayer

/-- The token is one that words are made of. -/
def Token.isOfWords : Token → Bool
  | .symbol letter => letter.isAlpha
  | .direction _ | .push | .pop => true
  | .assign | .finish => false

namespace Alphabet

variable {alphabet : Alphabet}

/-- Words may use all tokens of any alphabet but `:=`. -/
theorem isOfWords_of_hasToken {t : Token} (h : alphabet.hasToken t = true)
    (hne : t ≠ .assign) : t.isOfWords = true := by
  cases t with
  | symbol letter => exact h
  | direction | push | pop => rfl
  | assign => exact absurd rfl hne
  | finish => cases h

theorem hasToken_of_isOfWords {t : Token} (h : t.isOfWords = true) :
    extended.hasToken t = true := by
  cases t with
  | symbol letter => exact h
  | direction | push | pop => rfl
  | assign | finish => cases h

/-- Tokens one behind the other are pieces. -/
theorem splits_chars {tokens : List Token} (h : ∀ t ∈ tokens, alphabet.hasToken t = true) :
    alphabet.Splits (tokens.flatMap Token.chars) (tokens.map .token) := by
  constructor
  · intro p hp
    obtain ⟨t, ht, rfl⟩ := List.mem_map.1 hp
    exact h t ht
  · exact List.flatMap_map ..

/-- A text that lexes to its end is pieces to its end. -/
theorem exists_splits_of_lex {text : String} {tokens : List (Spanned Token)}
    (h : (lex alphabet text).toExcept = .ok tokens) :
    ∃ pieces, alphabet.Splits text.toList pieces ∧ tokens = Piece.spannedAll .start pieces := by
  obtain ⟨pieces, rest, hcuts⟩ := exists_cuts alphabet text.toList
  rw [hcuts.toExcept_lex] at h
  cases rest with
  | nil => exact ⟨pieces, splits_iff_cuts.2 hcuts, (Except.ok.inj h).symm⟩
  | cons c rest => cases h

/-- The tokens of a text are tokens of its alphabet. -/
theorem hasToken_of_lex {text : String} {tokens : List (Spanned Token)}
    (h : (lex alphabet text).toExcept = .ok tokens) :
    ∀ t ∈ tokens.map Spanned.value, alphabet.hasToken t = true := by
  obtain ⟨pieces, ⟨hadmitted, -⟩, rfl⟩ := exists_splits_of_lex h
  intro t ht
  rw [Piece.values_spannedAll] at ht
  obtain ⟨p, hp, hpiece⟩ := List.mem_filterMap.1 ht
  cases p with
  | blank c => cases hpiece
  | token s =>
      cases hpiece
      exact hadmitted _ hp

end Alphabet

namespace Word

/-- A token of a word is one character. -/
theorem length_flatMap_chars {word : Word} (h : ∀ t ∈ word, t.isOfWords = true) :
    (word.flatMap Token.chars).length = word.length := by
  induction word with
  | nil => rfl
  | cons t rest ih =>
      have hone : t.chars.length = 1 := by
        have ht := h t List.mem_cons_self
        cases t with
        | symbol | direction | push | pop => rfl
        | assign | finish => cases ht
      rw [List.flatMap_cons, List.length_append, hone,
        ih fun s hs => h s (List.mem_cons_of_mem _ hs), List.length_cons, Nat.add_comm]

/-- A word is read back from its text. -/
theorem parse_text {word : Word} (hne : word ≠ []) (hlength : word.length ≤ Limits.ruleLength)
    (h : ∀ t ∈ word, t.isOfWords = true) : parse (text word) = .ok word := by
  have hsplit : Alphabet.extended.Splits (text word).toList (word.map .token) := by
    rw [text, String.toList_ofList]
    exact Alphabet.splits_chars fun t ht => Alphabet.hasToken_of_isOfWords (h t ht)
  have hfits : (text word).length ≤ Limits.ruleLength := by
    rw [text, String.length_ofList, length_flatMap_chars h]
    exact hlength
  refine parse_eq_ok.2 ⟨_, (tokenize_eq_ok_iff_splits hfits).2 ⟨_, hsplit, rfl⟩, ?_, ?_, hne⟩
  · rw [Piece.values_spannedAll, List.filterMap_map]
    exact List.filterMap_some
  · intro hassign
    cases h _ hassign

/-- A word that was read is made of the tokens of words. -/
theorem isOfWords_of_parse {text : String} {word : Word} (h : parse text = .ok word) :
    ∀ t ∈ word, t.isOfWords = true := by
  obtain ⟨tokens, htokens, rfl, hassign, -⟩ := parse_eq_ok.1 h
  intro t ht
  have hhas := Alphabet.hasToken_of_lex (tokenize_eq_ok.1 htokens).2 t ht
  refine Alphabet.isOfWords_of_hasToken hhas ?_
  rintro rfl
  exact hassign ht

/-- The text of a word that was read is what it was read from, without the blanks. -/
theorem text_of_parse {source : String} {word : Word} (h : parse source = .ok word) :
    (text word).toList = source.toList.filter fun c => !Text.isBlank c := by
  obtain ⟨tokens, htokens, rfl, -⟩ := parse_eq_ok.1 h
  obtain ⟨hlength, -⟩ := tokenize_eq_ok.1 htokens
  obtain ⟨pieces, hsplit, rfl⟩ := (tokenize_eq_ok_iff_splits hlength).1 htokens
  rw [text, String.toList_ofList, Piece.values_spannedAll]
  exact hsplit.filter_eq.symm

end Word

end Lindenmayer
