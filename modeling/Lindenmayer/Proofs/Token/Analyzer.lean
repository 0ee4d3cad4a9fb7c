import Lindenmayer.Proofs.Token.Calls
import Mathlib.Data.Nat.Notation

/-!
# Three ways to read a text

A text can be read by asking a lexer for one token after the other (`Lexer.yields`), all at once
(`tokenize`), or by an analyzer that counts (`Analyzer.call`). They agree:

* however often a lexer is asked, it yields the tokens of the text, then its error if it has one,
  then nothing (`yields_eq`);
* the loop of the analyzer comes to the tokens and counts of the reading at once
  (`Analyzer.scan_eq`);
* so a call finds what `tokenize` finds, and the counts behind it describe the tokens of its own
  text (`Describes`), whatever was read before (`call_exact`).
-/

namespace Lindenmayer

/-! ## One token after the other -/

/-- What a reading yields token by token: its tokens, and its error if it has one. -/
def Lexed.items (lexed : Lexed) : List (Except LexicalError (Spanned Token)) :=
  lexed.tokens.map .ok ++
    match lexed.ending with
    | .complete _ => []
    | .broken error _ => [.error error]

namespace Lexer

/-- What a lexer yields when it is asked so many times. -/
def yields : Nat → Lexer → List (Option (Except LexicalError (Spanned Token)))
  | 0, _ => []
  | n + 1, lexer => lexer.next.1 :: yields n lexer.next.2

/-- At the end of a text a lexer stays there. -/
theorem next_of_none {lexer after : Lexer} (h : lexer.next = (none, after)) :
    after.next = (none, after) := by
  cases hfailed : lexer.failed with
  | true =>
      rw [next_of_failed hfailed] at h
      cases h
      exact next_of_failed hfailed
  | false =>
      simp only [next, hfailed, Bool.false_eq_true, if_false] at h
      split at h
      · cases h
        simp [next, skipBlanks]
      · split at h <;> cases h

theorem yields_of_silent {lexer : Lexer} (h : lexer.next = (none, lexer)) (n : Nat) :
    lexer.yields n = List.replicate n none := by
  induction n with
  | zero => rfl
  | succ n ih => rw [yields, h, ih, List.replicate_succ]

/-- A lexer yields the tokens of the text, its error if it has one, and nothing from then on. -/
theorem yields_eq (lexer : Lexer) (n : Nat) :
    lexer.yields n = (lexer.run.items.map some ++ List.replicate n none).take n := by
  induction n generalizing lexer with
  | zero => rfl
  | succ n ih =>
      rcases hnext : lexer.next with ⟨_ | error | t, after⟩
      · rw [yields, hnext, yields_of_silent (next_of_none hnext), run_of_none hnext]
        simp [Lexed.items, List.replicate_succ]
      · have hfailed : after.failed = true := failed_of_next_error hnext
        rw [yields, hnext, yields_of_silent (next_of_failed hfailed), run_of_error hnext]
        simp [Lexed.items]
      · have htake : ∀ (items : List (Option (Except LexicalError (Spanned Token)))) (m : ℕ),
            n ≤ m → (items ++ List.replicate m none).take n =
              (items ++ List.replicate n none).take n := by
          intro items m hm
          simp only [List.take_append, List.take_replicate]
          congr 2
          omega
        rw [yields, hnext, ih after, run_of_token hnext]
        simp only [Lexed.items, List.map_cons, List.cons_append, List.take_succ_cons]
        rw [← Lexed.items, htake _ (n + 1) (Nat.le_succ n)]

/-- A reading breaks off at a character. -/
theorem exists_character_of_run (lexer : Lexer) {error : LexicalError} {position : Position}
    (h : lexer.run.ending = .broken error position) :
    ∃ c place, error = .invalidCharacter c place := by
  induction lexer using run.induct with
  | case1 lexer after hnext =>
      rw [run_of_none hnext] at h
      cases h
  | case2 lexer error' after hnext =>
      rw [run_of_error hnext] at h
      cases h
      unfold next at hnext
      split at hnext
      · cases hnext
      split at hnext
      · cases hnext
      split at hnext <;> cases hnext
      exact ⟨_, _, rfl⟩
  | case3 lexer t after hnext shorter ih =>
      rw [run_of_token hnext] at h
      exact ih h

/-- The end of a text is no token of it. -/
theorem finish_not_mem_run (lexer : Lexer) : Token.finish ∉ lexer.run.values := by
  induction lexer using run.induct with
  | case1 lexer after hnext => simp [run_of_none hnext, Lexed.values]
  | case2 lexer error after hnext => simp [run_of_error hnext, Lexed.values]
  | case3 lexer t after hnext shorter ih =>
      have hne : Token.finish ≠ t.value := (ne_finish_of_next hnext).symm
      rw [run_of_token hnext, Lexed.values, List.map_cons, List.mem_cons]
      exact not_or.2 ⟨hne, ih⟩

end Lexer

/-! ## Counts -/

namespace TokenCounts

/-- The counts of a text: a text that is too long is not read at all. -/
def ofText (alphabet : Alphabet) (text : String) : TokenCounts :=
  match checkLength text with
  | .error _ => {}
  | .ok () =>
      let lexed := lex alphabet text
      let counts := lexed.values.foldl record {}
      match lexed.ending with
      | .complete _ => counts
      | .broken _ _ => { counts with invalid := counts.invalid + 1 }

/-- The counts are those of the tokens; what is counted nowhere else is `:=`. -/
structure Describes (counts : TokenCounts) (tokens : List Token) : Prop where
  total : counts.total = tokens.length
  symbols : counts.symbols = tokens.countP Token.isSymbol
  directions : counts.directions = tokens.countP fun t => t matches .direction _
  pushes : counts.pushes = tokens.count .push
  pops : counts.pops = tokens.count .pop
  assigns : counts.total - (counts.symbols + counts.directions + counts.pushes + counts.pops) =
    tokens.count .assign

/-- Each token is recorded once, under its kind. -/
theorem foldl_record (tokens : List Token) (counts : TokenCounts) :
    tokens.foldl record counts =
      { total := counts.total + tokens.length
        symbols := counts.symbols + tokens.countP Token.isSymbol
        directions := counts.directions + tokens.countP fun t => t matches .direction _
        pushes := counts.pushes + tokens.count .push
        pops := counts.pops + tokens.count .pop
        invalid := counts.invalid } := by
  induction tokens generalizing counts with
  | nil => rfl
  | cons t rest ih =>
      rw [List.foldl_cons, ih]
      cases t <;>
        simp [record, Token.isSymbol, Token.letter?, List.countP_cons] <;> omega

/-- A token that is not the end is of one of five kinds. -/
theorem length_eq_of_not_mem {tokens : List Token} (h : Token.finish ∉ tokens) :
    tokens.length = tokens.countP Token.isSymbol +
      tokens.countP (fun t => t matches .direction _) + tokens.count .push + tokens.count .pop +
        tokens.count .assign := by
  induction tokens with
  | nil => rfl
  | cons t rest ih =>
      obtain ⟨hne, hrest⟩ := not_or.1 (mt List.mem_cons.2 h)
      have hlength := ih hrest
      cases t with
      | finish => exact absurd rfl hne
      | symbol | assign | direction | push | pop =>
          simp [Token.isSymbol, Token.letter?, List.countP_cons]
          omega

/-- The counts of a reading that begins without any. -/
theorem describes_foldl {tokens : List Token} (h : Token.finish ∉ tokens) (invalid : ℕ) :
    Describes { tokens.foldl record {} with invalid } tokens := by
  have hlength := length_eq_of_not_mem h
  rw [foldl_record]
  constructor <;> simp only [Nat.zero_add]
  omega

/-- A text that is not too long is counted up to its end or first error. -/
theorem ofText_of_le {alphabet : Alphabet} {text : String}
    (h : text.length ≤ Limits.ruleLength) :
    ofText alphabet text =
      { (lex alphabet text).values.foldl record {} with
        invalid :=
          match (lex alphabet text).ending with
          | .complete _ => 0
          | .broken _ _ => 1 } := by
  rw [ofText, checkLength, if_pos h]
  simp only [foldl_record]
  cases (lex alphabet text).ending with
  | complete position => rfl
  | broken error position => rfl

theorem ofText_of_tooLong (alphabet : Alphabet) {text : String}
    (h : ¬ text.length ≤ Limits.ruleLength) : ofText alphabet text = {} := by
  rw [ofText, checkLength, if_neg h]

end TokenCounts

/-! ## The analyzer -/

namespace Analyzer

/-- A call reads as `tokenize` does, and behind it stand the counts of its text. -/
theorem tokenize_eq (analyzer : Analyzer) (alphabet : Alphabet) (text : String) :
    analyzer.tokenize alphabet text =
      (Lindenmayer.tokenize alphabet text,
        { analyzer with counts := TokenCounts.ofText alphabet text }) := by
  refine Prod.ext (fst_tokenize analyzer alphabet text) ?_
  unfold tokenize TokenCounts.ofText
  cases checkLength text with
  | error error => rfl
  | ok =>
      have hrun : (Lexer.ofText alphabet text).run = lex alphabet text := rfl
      simp only [scan_eq, hrun]
      cases (lex alphabet text).ending <;> rfl

/-- What an analyzer can be called to read. -/
inductive Call where
  | text (alphabet : Alphabet) (source : String)
  | rule (source : String)
  | sequence (source : String)

/-- The text that is read. -/
def Call.source : Call → String
  | text _ source | rule source | sequence source => source

/-- The alphabet in which it is read, rules in the extended one if they may use it. -/
def Call.alphabet (extendedDirections : Bool) : Call → Alphabet
  | text alphabet _ => alphabet
  | rule _ => if extendedDirections then .extended else .strict
  | sequence _ => .extended

/-- The answer to a call, and the analyzer behind it. -/
def call (analyzer : Analyzer) :
    Call → Except LexicalError (List (Spanned Token)) × Analyzer
  | .text alphabet source => analyzer.tokenize alphabet source
  | .rule source => analyzer.tokenizeRule source
  | .sequence source => analyzer.tokenizeSequence source

/-- The analyzer behind some calls. -/
def after (analyzer : Analyzer) (calls : List Call) : Analyzer :=
  calls.foldl (fun here next => (here.call next).2) analyzer

theorem call_eq (analyzer : Analyzer) (next : Call) :
    analyzer.call next =
      (Lindenmayer.tokenize (next.alphabet analyzer.extendedDirections) next.source,
        { analyzer with
          counts :=
            TokenCounts.ofText (next.alphabet analyzer.extendedDirections) next.source }) := by
  cases next with
  | text alphabet source => exact tokenize_eq analyzer alphabet source
  | rule source => exact tokenize_eq analyzer analyzer.ruleAlphabet source
  | sequence source => exact tokenize_eq analyzer .extended source

/-- No call changes what rules may use. -/
theorem extendedDirections_after (analyzer : Analyzer) (calls : List Call) :
    (analyzer.after calls).extendedDirections = analyzer.extendedDirections := by
  induction calls generalizing analyzer with
  | nil => rfl
  | cons next rest ih =>
      have hrest := ih (analyzer.call next).2
      rw [call_eq] at hrest
      rw [after, List.foldl_cons, call_eq]
      exact hrest

/-- Whatever an analyzer was called to read before, a call finds what reading the text at once
finds, which for a text that is not too long is what a lexer yields token by token; and the counts
behind it are those of the tokens of its own text up to its end or first error. -/
theorem call_exact (extendedDirections : Bool) (earlier : List Call) (next : Call) :
    let here := ({ extendedDirections } : Analyzer).after earlier
    let alphabet := next.alphabet extendedDirections
    let lexed := lex alphabet next.source
    let result := (here.call next).1
    let counts := (here.call next).2.counts
    result = Lindenmayer.tokenize alphabet next.source ∧
    result =
      (if next.source.length ≤ Limits.ruleLength then lexed.toExcept
      else .error (.tooLong next.source.length)) ∧
    (∀ n, (Lexer.ofText alphabet next.source).yields n =
      (lexed.items.map some ++ List.replicate n none).take n) ∧
    match result with
    | .ok tokens => counts.Describes (tokens.map Spanned.value) ∧ counts.invalid = 0
    | .error (.invalidCharacter _ _) => counts.Describes lexed.values ∧ counts.invalid = 1
    | .error (.tooLong _) => counts = {} := by
  intro here alphabet lexed result counts
  have hextended : here.extendedDirections = extendedDirections :=
    extendedDirections_after _ earlier
  have hcall := call_eq here next
  rw [hextended] at hcall
  have hresult : result = Lindenmayer.tokenize alphabet next.source := congrArg Prod.fst hcall
  have hcounts : counts = TokenCounts.ofText alphabet next.source :=
    congrArg (fun answer => answer.2.counts) hcall
  have hdescribes := TokenCounts.describes_foldl
    (Lexer.finish_not_mem_run (.ofText alphabet next.source))
  refine ⟨hresult, ?_, (Lexer.ofText alphabet next.source).yields_eq, ?_⟩
  · rw [hresult, Lindenmayer.tokenize, checkLength]
    split <;> rfl
  rw [hresult, hcounts, Lindenmayer.tokenize]
  by_cases hlength : next.source.length ≤ Limits.ruleLength
  · rw [TokenCounts.ofText_of_le hlength, checkLength, if_pos hlength, ok_bind, Lexed.toExcept]
    cases hending : (lex alphabet next.source).ending with
    | complete position => exact ⟨hdescribes 0, rfl⟩
    | broken error position =>
        obtain ⟨c, place, rfl⟩ := Lexer.exists_character_of_run _ hending
        exact ⟨hdescribes 1, rfl⟩
  · rw [TokenCounts.ofText_of_tooLong alphabet hlength, checkLength, if_neg hlength]
    rfl

end Analyzer

end Lindenmayer
