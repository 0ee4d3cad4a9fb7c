import Lindenmayer.Proofs.Outcome
import Lindenmayer.Token.Analyzer

/-!
# Texts, token by token

`Lexer.run` reads a text one token after the other. Each token takes up a character at least
(`Lexer.length_run_le`), so a text that is not too long has no more tokens than the limit
(`length_of_tokenize`). The loop of an analyzer comes to the same tokens or error
(`Analyzer.fst_tokenize`).
-/

namespace Lindenmayer

/-- No text starts with its end. -/
theorem Alphabet.ne_finish_of_firstToken {alphabet : Alphabet} {c : Char}
    {rest tail : List Char} {t : Token} (h : alphabet.firstToken c rest = .ok (t, tail)) :
    t ≠ .finish := by
  intro same
  subst same
  have hchars := Alphabet.chars_append_of_firstToken h
  have hlen := Alphabet.length_of_firstToken h
  simp only [Token.chars, List.nil_append] at hchars
  rw [hchars, List.length_cons] at hlen
  omega

namespace Lexer

theorem ne_finish_of_next {lexer after : Lexer} {t : Spanned Token}
    (h : lexer.next = (some (.ok t), after)) : t.value ≠ .finish := by
  unfold next at h
  split at h
  · cases h
  split at h
  · cases h
  split at h
  · next first =>
    cases h
    exact Alphabet.ne_finish_of_firstToken first
  · cases h

theorem run_of_token {lexer after : Lexer} {t : Spanned Token}
    (h : lexer.next = (some (.ok t), after)) :
    lexer.run = ⟨t :: after.run.tokens, after.run.ending⟩ := by
  rw [run]
  split
  · next h' => rw [h] at h'; cases h'
  · next h' => rw [h] at h'; cases h'
  · next h' => rw [h] at h'; cases h'; rfl

theorem run_of_error {lexer after : Lexer} {error : LexicalError}
    (h : lexer.next = (some (.error error), after)) :
    lexer.run = ⟨[], .broken error after.position⟩ := by
  rw [run]
  split
  · next h' => rw [h] at h'; cases h'
  · next h' => rw [h] at h'; cases h'; rfl
  · next h' => rw [h] at h'; cases h'

theorem run_of_none {lexer after : Lexer} (h : lexer.next = (none, after)) :
    lexer.run = ⟨[], .complete after.position⟩ := by
  rw [run]
  split
  · next h' => rw [h] at h'; cases h'; rfl
  · next h' => rw [h] at h'; cases h'
  · next h' => rw [h] at h'; cases h'

/-- Each token takes up a character at least. -/
theorem length_run_le (lexer : Lexer) : lexer.run.tokens.length ≤ lexer.rest.length := by
  induction lexer using run.induct with
  | case1 lexer after hnext =>
      rw [run_of_none hnext]
      exact Nat.zero_le _
  | case2 lexer error after hnext =>
      rw [run_of_error hnext]
      exact Nat.zero_le _
  | case3 lexer t after hnext shorter ih =>
      rw [run_of_token hnext, List.length_cons]
      omega

end Lexer

/-- The tokens of a text, if it lexes to its end. -/
theorem Lexed.toExcept_eq_ok_iff {lexed : Lexed} {tokens : List (Spanned Token)} :
    lexed.toExcept = .ok tokens ↔
      lexed.tokens = tokens ∧ ∃ position, lexed.ending = .complete position := by
  unfold toExcept
  split <;> simp_all

/-- The tokens of a text that is not too long and lexes to its end. -/
theorem tokenize_eq_ok {alphabet : Alphabet} {text : String} {tokens : List (Spanned Token)} :
    tokenize alphabet text = .ok tokens ↔
      text.length ≤ Limits.ruleLength ∧ (lex alphabet text).toExcept = .ok tokens := by
  unfold tokenize
  rw [bind_eq_ok_iff]
  by_cases hlength : text.length ≤ Limits.ruleLength
  · simp [checkLength, hlength]
  · simp [checkLength, hlength]

theorem length_of_tokenize {alphabet : Alphabet} {text : String}
    {tokens : List (Spanned Token)} (h : tokenize alphabet text = .ok tokens) :
    tokens.length ≤ Limits.ruleLength := by
  obtain ⟨hlength, htokens⟩ := tokenize_eq_ok.1 h
  obtain ⟨rfl, -⟩ := Lexed.toExcept_eq_ok_iff.1 htokens
  have hcount : (lex alphabet text).tokens.length ≤ text.length :=
    Lexer.length_run_le (.ofText alphabet text)
  exact Nat.le_trans hcount hlength

namespace Analyzer

/-- The loop comes to the tokens and the counts of the reading at once. -/
theorem scan_eq (lexer : Lexer) (counts : TokenCounts) (found : Array (Spanned Token)) :
    scan lexer counts found =
      match lexer.run.ending with
      | .complete _ =>
          (.ok (found.toList ++ lexer.run.tokens),
            lexer.run.values.foldl TokenCounts.record counts)
      | .broken error _ =>
          let counted := lexer.run.values.foldl TokenCounts.record counts
          (.error error, { counted with invalid := counted.invalid + 1 }) := by
  induction lexer using Lexer.run.induct generalizing counts found with
  | case1 lexer after hnext =>
      rw [Lexer.run_of_none hnext, scan]
      split
      · simp [Lexed.values]
      · next h => rw [hnext] at h; cases h
      · next h => rw [hnext] at h; cases h
  | case2 lexer error after hnext =>
      rw [Lexer.run_of_error hnext, scan]
      split
      · next h => rw [hnext] at h; cases h
      · next h => rw [hnext] at h; cases h; rfl
      · next h => rw [hnext] at h; cases h
  | case3 lexer t after hnext shorter ih =>
      rw [Lexer.run_of_token hnext, scan]
      split
      · next h => rw [hnext] at h; cases h
      · next h => rw [hnext] at h; cases h
      · next h =>
        rw [hnext] at h
        cases h
        rw [ih]
        simp [Lexed.values]

/-- An analyzer finds what reading the text at once finds. -/
theorem fst_tokenize (analyzer : Analyzer) (alphabet : Alphabet) (text : String) :
    (analyzer.tokenize alphabet text).1 = Lindenmayer.tokenize alphabet text := by
  unfold tokenize Lindenmayer.tokenize
  cases checkLength text with
  | error error => rfl
  | ok =>
      have hrun : (Lexer.ofText alphabet text).run = lex alphabet text := rfl
      simp only [scan_eq, ok_bind, hrun, Lexed.toExcept]
      cases (lex alphabet text).ending <;> rfl

theorem fst_tokenizeSequence (analyzer : Analyzer) (text : String) :
    (analyzer.tokenizeSequence text).1 = Lindenmayer.tokenize .extended text :=
  analyzer.fst_tokenize .extended text

end Analyzer

end Lindenmayer
