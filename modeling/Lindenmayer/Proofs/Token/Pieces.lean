import Lindenmayer.Proofs.Token.Text
import Mathlib.Algebra.Ring.Nat

/-!
# The pieces of a text

A text is cut into blanks and the characters of tokens, from its start to its end or to the
first place where no piece starts. How long a piece is can be told from its characters alone, so
there is one such cut of a text (`Alphabet.Cuts.unique`, `Alphabet.exists_cuts`).

* The lexer reads along the cut: tokens with their places, then the end or the character that is
  in the way (`Alphabet.Cuts.exists_lex_eq`).
* The place behind some characters is counted from them alone (`Position.advanceAll_start`).
* So the tokens that an analyzer finds in a text, and the place of the error, are those of its cut
  (`Analyzer.tokenize_exact`).
-/

namespace Lindenmayer

/-- A blank, or the characters of a token. -/
inductive Piece where
  | blank (c : Char)
  | token (t : Token)
deriving DecidableEq

namespace Piece

def chars : Piece → List Char
  | blank c => [c]
  | token t => t.chars

def token? : Piece → Option Token
  | blank _ => none
  | token t => some t

/-- The token of a piece, if it has one, with its place in the text. -/
def spanned (position : Position) : Piece → List (Spanned Token)
  | blank _ => []
  | token t => [⟨t, position, position.advanceAll t.chars⟩]

/-- The tokens of pieces that stand one behind the other. -/
def spannedAll (position : Position) : List Piece → List (Spanned Token)
  | [] => []
  | p :: rest => p.spanned position ++ spannedAll (position.advanceAll p.chars) rest

theorem values_spannedAll (position : Position) (pieces : List Piece) :
    (spannedAll position pieces).map Spanned.value = pieces.filterMap token? := by
  induction pieces generalizing position with
  | nil => rfl
  | cons p rest ih =>
      rw [spannedAll, List.map_append, ih]
      cases p <;> rfl

end Piece

namespace Alphabet

variable {alphabet : Alphabet}

/-- The alphabet has the token. The end of a text is none of its tokens. -/
def hasToken (alphabet : Alphabet) : Token → Bool
  | .symbol letter => letter.isAlpha
  | .direction turn => alphabet.accepts turn
  | .assign | .push | .pop => true
  | .finish => false

/-- The piece can stand in a text. -/
def admits (alphabet : Alphabet) : Piece → Bool
  | .blank c => Text.isBlank c
  | .token t => alphabet.hasToken t

/-- No piece starts the text. -/
def Halts (alphabet : Alphabet) (cs : List Char) : Prop :=
  ∀ p, alphabet.admits p = true → ¬ p.chars <+: cs

/-- The text is the pieces, and then what no piece starts. -/
structure Cuts (alphabet : Alphabet) (cs : List Char) (pieces : List Piece)
    (rest : List Char) : Prop where
  admitted : ∀ p ∈ pieces, alphabet.admits p = true
  whole : pieces.flatMap Piece.chars ++ rest = cs
  halts : alphabet.Halts rest

/-- The text is pieces to its end. -/
def Splits (alphabet : Alphabet) (cs : List Char) (pieces : List Piece) : Prop :=
  (∀ p ∈ pieces, alphabet.admits p = true) ∧ pieces.flatMap Piece.chars = cs

theorem isBlank_of_isAlpha {c : Char} (h : c.isAlpha = true) : Text.isBlank c = false := by
  have hrange : (65 ≤ c.toNat ∧ c.toNat ≤ 90) ∨ (97 ≤ c.toNat ∧ c.toNat ≤ 122) := by
    have hcase : (c.isUpper || c.isLower) = true := h
    rcases Bool.or_eq_true_iff.1 hcase with hupper | hlower
    · exact .inl (of_decide_eq_true hupper)
    · obtain ⟨hlow, hhigh⟩ := Bool.and_eq_true_iff.1 hlower
      exact .inr ⟨of_decide_eq_true hlow, of_decide_eq_true hhigh⟩
  simp [Text.isBlank]
  omega

/-- A token of the alphabet is what the text starts with if and only if the lexer says so. -/
theorem firstToken_eq_ok_iff {c : Char} {rest tail : List Char} {t : Token} :
    alphabet.firstToken c rest = .ok (t, tail) ↔
      alphabet.hasToken t = true ∧ t.chars ++ tail = c :: rest := by
  constructor
  · intro h
    refine ⟨?_, chars_append_of_firstToken h⟩
    unfold firstToken at h
    repeat' split at h
    all_goals cases h
    all_goals first | rfl | assumption
  · rintro ⟨hhas, hchars⟩
    cases t with
    | symbol letter =>
        obtain ⟨rfl, rfl⟩ := List.cons.inj hchars
        exact if_pos hhas
    | assign | push | pop =>
        cases hchars
        rfl
    | direction turn =>
        obtain ⟨rfl, rfl⟩ := List.cons.inj hchars
        have hmark := Direction.ofMark?_mark turn
        rcases turn with ⟨axis, positive⟩
        cases axis <;> cases positive <;> simp_all [firstToken, Direction.mark, hasToken]
    | finish => cases hhas

/-- No token starts with a blank. -/
theorem isBlank_of_chars {t : Token} {c : Char} {rest tail : List Char}
    (hhas : alphabet.hasToken t = true) (hchars : t.chars ++ tail = c :: rest) :
    Text.isBlank c = false := by
  cases t with
  | symbol letter =>
      obtain ⟨rfl, rfl⟩ := List.cons.inj hchars
      exact isBlank_of_isAlpha hhas
  | assign | push | pop =>
      cases hchars
      rfl
  | direction turn =>
      obtain ⟨rfl, rfl⟩ := List.cons.inj hchars
      rcases turn with ⟨axis, positive⟩
      cases axis <;> cases positive <;> rfl
  | finish => cases hhas

theorem chars_ne_nil {p : Piece} (h : alphabet.admits p = true) : p.chars ≠ [] := by
  cases p with
  | blank c => exact List.cons_ne_nil c []
  | token t =>
      cases t with
      | finish => cases h
      | symbol | assign | direction | push | pop => exact List.cons_ne_nil _ _

/-- A piece that starts a text is the only one that does. -/
theorem eq_of_chars_append {p q : Piece} {u v : List Char} (hp : alphabet.admits p = true)
    (hq : alphabet.admits q = true) (h : p.chars ++ u = q.chars ++ v) : p = q ∧ u = v := by
  cases p with
  | blank c =>
      cases q with
      | blank d =>
          obtain ⟨rfl, rfl⟩ := List.cons.inj h
          exact ⟨rfl, rfl⟩
      | token t =>
          have hblank := isBlank_of_chars hq h.symm
          rw [show Text.isBlank c = true from hp] at hblank
          cases hblank
  | token t =>
      cases q with
      | blank d =>
          have hblank := isBlank_of_chars hp h
          rw [show Text.isBlank d = true from hq] at hblank
          cases hblank
      | token s =>
          -- `:=` is the only token of two characters, and `:` is none: the lexer finds one token
          obtain ⟨c, rest, hcons⟩ := List.exists_cons_of_ne_nil (chars_ne_nil hp)
          have hfirst : alphabet.firstToken c (rest ++ u) = .ok (t, u) :=
            firstToken_eq_ok_iff.2 ⟨hp, by rw [← List.cons_append, ← hcons]; rfl⟩
          have hsecond : alphabet.firstToken c (rest ++ u) = .ok (s, v) :=
            firstToken_eq_ok_iff.2 ⟨hq, by rw [← List.cons_append, ← hcons]; exact h.symm⟩
          rw [hfirst] at hsecond
          cases hsecond
          exact ⟨rfl, rfl⟩

theorem halts_nil : alphabet.Halts [] := by
  intro p hp hprefix
  exact chars_ne_nil hp (List.prefix_nil.1 hprefix)

/-- No piece starts where the lexer finds neither a blank nor a token. -/
theorem halts_cons_iff {c : Char} {rest : List Char} :
    alphabet.Halts (c :: rest) ↔
      Text.isBlank c = false ∧ ∃ e, alphabet.firstToken c rest = .error e := by
  constructor
  · intro h
    constructor
    · cases hblank : Text.isBlank c with
      | false => rfl
      | true => exact absurd ⟨rest, rfl⟩ (h (.blank c) hblank)
    · cases hfirst : alphabet.firstToken c rest with
      | error e => exact ⟨e, rfl⟩
      | ok result =>
          obtain ⟨hhas, hchars⟩ := firstToken_eq_ok_iff.1 hfirst
          exact absurd ⟨result.2, hchars⟩ (h (.token result.1) hhas)
  · rintro ⟨hblank, e, hfirst⟩ p hp ⟨tail, htail⟩
    cases p with
    | blank d =>
        obtain ⟨rfl, -⟩ := List.cons.inj htail
        rw [show Text.isBlank d = true from hp] at hblank
        cases hblank
    | token t =>
        rw [firstToken_eq_ok_iff.2 ⟨hp, htail⟩] at hfirst
        cases hfirst

/-- Every text can be cut. The recursion is on what is left behind the first piece. -/
theorem exists_cuts (alphabet : Alphabet) (cs : List Char) :
    ∃ pieces rest, alphabet.Cuts cs pieces rest := by
  by_cases hhalts : alphabet.Halts cs
  · refine ⟨[], cs, ?_, rfl, hhalts⟩
    intro p hp
    cases hp
  · obtain ⟨p, hp, tail, rfl⟩ : ∃ p, alphabet.admits p = true ∧ p.chars <+: cs := by
      simpa [Halts] using hhalts
    have hshorter : tail.length < (p.chars ++ tail).length := by
      have := List.length_pos_iff.2 (chars_ne_nil hp)
      rw [List.length_append]
      omega
    obtain ⟨pieces, rest, hadmitted, hwhole, hrest⟩ := exists_cuts alphabet tail
    refine ⟨p :: pieces, rest, ?_, ?_, hrest⟩
    · intro q hq
      rcases List.mem_cons.1 hq with rfl | hq
      · exact hp
      · exact hadmitted q hq
    · rw [List.flatMap_cons, List.append_assoc, hwhole]
termination_by cs.length

/-- A text is cut in one way only. -/
theorem Cuts.unique {cs : List Char} {first second : List Piece} {rest rest' : List Char}
    (h : alphabet.Cuts cs first rest) (h' : alphabet.Cuts cs second rest') :
    first = second ∧ rest = rest' := by
  induction first generalizing cs second with
  | nil =>
      obtain ⟨-, rfl, hhalts⟩ := h
      obtain ⟨hadmitted, hwhole, -⟩ := h'
      cases second with
      | nil => exact ⟨rfl, hwhole.symm⟩
      | cons q second =>
          rw [List.flatMap_cons, List.append_assoc] at hwhole
          exact absurd ⟨_, hwhole⟩ (hhalts q (hadmitted q List.mem_cons_self))
  | cons p first ih =>
      obtain ⟨hadmitted, rfl, hhalts⟩ := h
      have hp := hadmitted p List.mem_cons_self
      obtain ⟨hadmitted', hwhole', hhalts'⟩ := h'
      cases second with
      | nil =>
          rw [List.flatMap_cons, List.append_assoc] at hwhole'
          exact absurd ⟨_, hwhole'.symm⟩ (hhalts' p hp)
      | cons q second =>
          rw [List.flatMap_cons, List.flatMap_cons, List.append_assoc, List.append_assoc]
            at hwhole'
          obtain ⟨rfl, htail⟩ :=
            eq_of_chars_append (hadmitted' q List.mem_cons_self) hp hwhole'
          obtain ⟨rfl, rfl⟩ := ih
            ⟨fun s hs => hadmitted s (List.mem_cons_of_mem _ hs), rfl, hhalts⟩
            ⟨fun s hs => hadmitted' s (List.mem_cons_of_mem _ hs), htail, hhalts'⟩
          exact ⟨rfl, rfl⟩

end Alphabet

namespace Lexer

variable {alphabet : Alphabet}

/-- What is read depends on the first token or error and on what is read behind it. -/
theorem run_eq_of_next_eq {lexer other : Lexer} (h : lexer.next = other.next) :
    lexer.run = other.run := by
  rcases hnext : other.next with ⟨_ | error | t, after⟩
  · rw [run_of_none hnext, run_of_none (h.trans hnext)]
  · rw [run_of_error hnext, run_of_error (h.trans hnext)]
  · rw [run_of_token hnext, run_of_token (h.trans hnext)]

/-- A piece is read, and then what stands behind it. -/
theorem run_piece {p : Piece} (hp : alphabet.admits p = true) (position : Position)
    (rest : List Char) :
    run { alphabet, rest := p.chars ++ rest, position } =
      let tail := run { alphabet, rest, position := position.advanceAll p.chars }
      ⟨p.spanned position ++ tail.tokens, tail.ending⟩ := by
  cases p with
  | blank c =>
      -- a blank only moves the place
      have hblank : Text.isBlank c = true := hp
      apply run_eq_of_next_eq
      simp [next, Piece.chars, skipBlanks, hblank]
  | token t =>
      obtain ⟨c, front, hcons⟩ := List.exists_cons_of_ne_nil (Alphabet.chars_ne_nil hp)
      have hchars : t.chars ++ rest = c :: (front ++ rest) := by
        rw [← List.cons_append, ← hcons]
        rfl
      have hblank := Alphabet.isBlank_of_chars hp hchars
      have hfirst := Alphabet.firstToken_eq_ok_iff.2 ⟨hp, hchars⟩
      have hnext : next { alphabet, rest := t.chars ++ rest, position } =
          (some (.ok ⟨t, position, position.advanceAll t.chars⟩),
            { alphabet, rest, position := position.advanceAll t.chars }) := by
        simp [next, hchars, skipBlanks, hblank, hfirst]
      exact run_of_token hnext

/-- Pieces are read one after the other, whatever stands behind them. -/
theorem run_pieces {pieces : List Piece} (h : ∀ p ∈ pieces, alphabet.admits p = true)
    (position : Position) (rest : List Char) :
    run { alphabet, rest := pieces.flatMap Piece.chars ++ rest, position } =
      let tail := run
        { alphabet, rest, position := position.advanceAll (pieces.flatMap Piece.chars) }
      ⟨Piece.spannedAll position pieces ++ tail.tokens, tail.ending⟩ := by
  induction pieces generalizing position with
  | nil => rfl
  | cons p pieces ih =>
      have hp := h p List.mem_cons_self
      have hpieces : ∀ q ∈ pieces, alphabet.admits q = true :=
        fun q hq => h q (List.mem_cons_of_mem _ hq)
      rw [List.flatMap_cons, List.append_assoc, run_piece hp, ih hpieces,
        Position.advanceAll_append]
      simp only [Piece.spannedAll, List.append_assoc]

/-- Where no piece starts, nothing more is read, apart from a colon that is found wanting. -/
theorem run_of_halts {c : Char} {rest : List Char} (h : alphabet.Halts (c :: rest))
    (position : Position) :
    run { alphabet, rest := c :: rest, position } =
      ⟨[], .broken (.invalidCharacter c position)
        (if c = ':' then position.advance c else position)⟩ := by
  obtain ⟨hblank, e, hfirst⟩ := Alphabet.halts_cons_iff.1 h
  have hnext : next { alphabet, rest := c :: rest, position } =
      (some (.error (.invalidCharacter c position)),
        { alphabet, rest := c :: rest
          position := if c = ':' then position.advance c else position
          failed := true }) := by
    simp [next, skipBlanks, hblank, hfirst]
  exact run_of_error hnext

theorem run_nil (position : Position) :
    run { alphabet, rest := [], position } = ⟨[], .complete position⟩ :=
  have hnext : next { alphabet, rest := [], position } =
    (none, { alphabet, rest := [], position }) := rfl
  run_of_none hnext

end Lexer

namespace Position

/-- The place behind the characters, as counted from them. -/
def behind (cs : List Char) : Position where
  offset := (String.ofList cs).utf8ByteSize
  line := .ofNat (1 + cs.count '\n')
  column := .ofNat (1 + (cs.reverse.takeWhile (· != '\n')).length)

/-- The place is behind the characters: its offset is the number of their bytes, its line one more
than that of their line breaks, and its column one more than that of the characters since the last
of these. -/
structure IsBehind (p : Position) (cs : List Char) : Prop where
  offset : p.offset = (String.ofList cs).utf8ByteSize
  line : p.line.toNat = 1 + cs.count '\n'
  column : p.column.toNat = 1 + (cs.reverse.takeWhile (· != '\n')).length

/-- Lines and columns do not wrap around in a text that is not too long for them. -/
theorem isBehind_behind {cs : List Char} (h : cs.length < 2 ^ 32 - 1) :
    (behind cs).IsBehind cs := by
  have hlines : cs.count '\n' ≤ cs.length := List.count_le_length
  have hcolumns : (cs.reverse.takeWhile (· != '\n')).length ≤ cs.length :=
    Nat.le_trans (List.takeWhile_prefix _).length_le (Nat.le_of_eq List.length_reverse)
  have hsize : UInt32.size = 2 ^ 32 := rfl
  exact ⟨rfl, UInt32.toNat_ofNat_of_lt' (by omega), UInt32.toNat_ofNat_of_lt' (by omega)⟩

theorem isBehind_iff {cs : List Char} (h : cs.length < 2 ^ 32 - 1) {p : Position} :
    p.IsBehind cs ↔ p = behind cs := by
  obtain ⟨hoffset, hline, hcolumn⟩ := isBehind_behind h
  constructor
  · rintro ⟨hoffset', hline', hcolumn'⟩
    cases p
    exact (mk.injEq ..).mpr ⟨hoffset', UInt32.toNat_inj.1 (hline'.trans hline.symm),
      UInt32.toNat_inj.1 (hcolumn'.trans hcolumn.symm)⟩
  · rintro rfl
    exact ⟨hoffset, hline, hcolumn⟩

theorem advance_behind (cs : List Char) (c : Char) :
    (behind cs).advance c = behind (cs ++ [c]) := by
  by_cases hbreak : c = '\n'
  · -- the line break is the last one, and nothing is behind it
    subst hbreak
    have hsize : "\n".utf8ByteSize = 1 := rfl
    simp [advance, behind, hsize, UInt32.add_assoc]
  · simp [advance, behind, hbreak, UInt32.add_assoc]

theorem advanceAll_behind (cs ds : List Char) :
    (behind cs).advanceAll ds = behind (cs ++ ds) := by
  induction ds generalizing cs with
  | nil => rw [advanceAll_nil, List.append_nil]
  | cons d ds ih =>
      rw [advanceAll_cons, advance_behind, ih, List.append_assoc, List.singleton_append]

theorem advanceAll_start (cs : List Char) : start.advanceAll cs = behind cs :=
  advanceAll_behind [] cs

end Position

namespace Alphabet

variable {alphabet : Alphabet} {text : String}

/-- The lexer reads along the cut of a text, to its end or to the character that is in the way. -/
theorem Cuts.exists_lex_eq {pieces : List Piece} {rest : List Char}
    (h : alphabet.Cuts text.toList pieces rest) :
    ∃ ending, lex alphabet text = ⟨Piece.spannedAll .start pieces, ending⟩ ∧
      (rest = [] ∧ ending = .complete (.behind text.toList) ∨
        ∃ c tail place, rest = c :: tail ∧
          ending = .broken (.invalidCharacter c (.behind (pieces.flatMap Piece.chars))) place) := by
  have hrun := Lexer.run_pieces h.admitted .start rest
  rw [h.whole, Position.advanceAll_start] at hrun
  rw [lex, Lexer.ofText, hrun]
  cases rest with
  | nil =>
      rw [Lexer.run_nil, ← h.whole, List.append_nil]
      exact ⟨_, by simp only [List.append_nil], .inl ⟨rfl, rfl⟩⟩
  | cons c tail =>
      rw [Lexer.run_of_halts h.halts]
      simp only [List.append_nil]
      exact ⟨_, rfl, .inr ⟨c, tail, _, rfl, rfl⟩⟩

theorem Cuts.toExcept_lex {pieces : List Piece} {rest : List Char}
    (h : alphabet.Cuts text.toList pieces rest) :
    (lex alphabet text).toExcept =
      match rest with
      | [] => .ok (Piece.spannedAll .start pieces)
      | c :: _ => .error (.invalidCharacter c (.behind (pieces.flatMap Piece.chars))) := by
  obtain ⟨ending, hlex, ⟨rfl, rfl⟩ | ⟨c, tail, place, rfl, rfl⟩⟩ := h.exists_lex_eq
  · rw [hlex]
    rfl
  · rw [hlex]
    rfl

theorem splits_iff_cuts {cs : List Char} {pieces : List Piece} :
    alphabet.Splits cs pieces ↔ alphabet.Cuts cs pieces [] := by
  constructor
  · rintro ⟨hadmitted, hwhole⟩
    exact ⟨hadmitted, by rw [List.append_nil, hwhole], halts_nil⟩
  · rintro ⟨hadmitted, hwhole, -⟩
    exact ⟨hadmitted, by rw [← hwhole, List.append_nil]⟩

theorem Splits.unique {cs : List Char} {first second : List Piece}
    (h : alphabet.Splits cs first) (h' : alphabet.Splits cs second) : first = second :=
  ((splits_iff_cuts.1 h).unique (splits_iff_cuts.1 h')).1

theorem filter_chars {p : Piece} (h : alphabet.admits p = true) :
    p.chars.filter (fun c => !Text.isBlank c) = p.token?.elim [] Token.chars := by
  cases p with
  | blank c =>
      have hblank : Text.isBlank c = true := h
      simp [Piece.chars, Piece.token?, hblank]
  | token t =>
      have hhas : alphabet.hasToken t = true := h
      cases t with
      | assign => rfl
      | finish => cases h
      | symbol | direction | push | pop =>
          have hblank := isBlank_of_chars hhas (List.append_nil _)
          simp [Piece.chars, Piece.token?, Token.chars, hblank]

/-- The tokens of a split text make up the text without its blanks. -/
theorem Splits.filter_eq {cs : List Char} {pieces : List Piece}
    (h : alphabet.Splits cs pieces) :
    cs.filter (fun c => !Text.isBlank c) =
      (pieces.filterMap Piece.token?).flatMap Token.chars := by
  obtain ⟨hadmitted, rfl⟩ := h
  induction pieces with
  | nil => rfl
  | cons p pieces ih =>
      rw [List.flatMap_cons, List.filter_append, filter_chars (hadmitted p List.mem_cons_self),
        ih fun q hq => hadmitted q (List.mem_cons_of_mem _ hq)]
      cases p <;> rfl

theorem Splits.append {u v : List Char} {first second : List Piece}
    (hu : alphabet.Splits u first) (hv : alphabet.Splits v second) :
    alphabet.Splits (u ++ v) (first ++ second) := by
  obtain ⟨hfirst, rfl⟩ := hu
  obtain ⟨hsecond, rfl⟩ := hv
  refine ⟨?_, List.flatMap_append⟩
  intro p hp
  rcases List.mem_append.1 hp with hp | hp
  · exact hfirst p hp
  · exact hsecond p hp

theorem splits_token {t : Token} (h : alphabet.hasToken t = true) :
    alphabet.Splits t.chars [.token t] := by
  refine ⟨?_, List.append_nil _⟩
  intro p hp
  rw [List.mem_singleton.1 hp]
  exact h

theorem splits_blanks {gap : List Char} (h : ∀ c ∈ gap, Text.isBlank c = true) :
    alphabet.Splits gap (gap.map .blank) := by
  constructor
  · intro p hp
    obtain ⟨c, hc, rfl⟩ := List.mem_map.1 hp
    exact h c hc
  · simp [List.flatMap_map, Piece.chars]

theorem filterMap_blanks (gap : List Char) :
    (gap.map Piece.blank).filterMap Piece.token? = [] := by
  simp [List.filterMap_map, Function.comp_def, Piece.token?]

/-- Tokens with blanks before, between and behind them are pieces. The induction is on the
tokens; the blanks behind one are those before the next. -/
theorem exists_splits_of_spaced {lead : List Char} {spaced : List (Token × List Char)}
    (hlead : ∀ c ∈ lead, Text.isBlank c = true)
    (hspaced : ∀ entry ∈ spaced,
      alphabet.hasToken entry.1 = true ∧ ∀ c ∈ entry.2, Text.isBlank c = true) :
    ∃ pieces,
      alphabet.Splits (lead ++ spaced.flatMap fun entry => entry.1.chars ++ entry.2) pieces ∧
      pieces.filterMap Piece.token? = spaced.map Prod.fst := by
  induction spaced generalizing lead with
  | nil =>
      refine ⟨lead.map .blank, ?_, filterMap_blanks lead⟩
      rw [List.flatMap_nil, List.append_nil]
      exact splits_blanks hlead
  | cons entry spaced ih =>
      obtain ⟨hhas, hgap⟩ := hspaced entry List.mem_cons_self
      obtain ⟨rest, hrest, htokens⟩ := ih hgap
        (fun other h => hspaced other (List.mem_cons_of_mem _ h))
      refine ⟨lead.map .blank ++ ([.token entry.1] ++ rest), ?_, ?_⟩
      · rw [List.flatMap_cons, List.append_assoc]
        exact (splits_blanks hlead).append ((splits_token hhas).append hrest)
      · rw [List.filterMap_append, filterMap_blanks, List.filterMap_append, htokens]
        rfl

/-- No piece starts with a colon that has no equals sign behind it. -/
theorem halts_colon {rest : List Char} (h : rest.head? ≠ some '=') :
    alphabet.Halts (':' :: rest) := by
  refine halts_cons_iff.2 ⟨rfl, ':', ?_⟩
  cases rest with
  | nil => rfl
  | cons c rest =>
      have hne : c ≠ '=' := fun heq => h (congrArg some heq)
      simp [firstToken, hne]

end Alphabet

theorem tokenize_of_le {alphabet : Alphabet} {text : String}
    (h : text.length ≤ Limits.ruleLength) :
    tokenize alphabet text = (lex alphabet text).toExcept := by
  rw [tokenize, checkLength, if_pos h]
  rfl

/-- A text that is not too long has tokens if and only if it is pieces to its end. -/
theorem tokenize_eq_ok_iff_splits {alphabet : Alphabet} {text : String}
    (hlength : text.length ≤ Limits.ruleLength) {tokens : List (Spanned Token)} :
    tokenize alphabet text = .ok tokens ↔
      ∃ pieces, alphabet.Splits text.toList pieces ∧
        tokens = Piece.spannedAll .start pieces := by
  rw [tokenize_of_le hlength]
  constructor
  · intro h
    -- what is behind the last piece decides between tokens and an error
    obtain ⟨pieces, rest, hcuts⟩ := Alphabet.exists_cuts alphabet text.toList
    rw [hcuts.toExcept_lex] at h
    cases rest with
    | nil => exact ⟨pieces, Alphabet.splits_iff_cuts.2 hcuts, (Except.ok.inj h).symm⟩
    | cons c rest => cases h
  · rintro ⟨pieces, hsplit, rfl⟩
    rw [(Alphabet.splits_iff_cuts.1 hsplit).toExcept_lex]

/-- The characters of a text that is not too long have their place in front of what is behind
them. -/
theorem Alphabet.Cuts.isBehind_iff {alphabet : Alphabet} {text : String} {pieces : List Piece}
    {rest : List Char} (h : alphabet.Cuts text.toList pieces rest)
    (hlength : text.length ≤ Limits.ruleLength) {place : Position} :
    place.IsBehind (pieces.flatMap Piece.chars) ↔ place = .behind (pieces.flatMap Piece.chars) := by
  apply Position.isBehind_iff
  have hwhole := congrArg List.length h.whole
  rw [List.length_append, String.length_toList] at hwhole
  have hlimit : Limits.ruleLength < 2 ^ 32 - 1 := by decide
  omega

/-- Its error is the first character that starts no piece, with the place of it. -/
theorem tokenize_eq_error_iff_cuts {alphabet : Alphabet} {text : String}
    (hlength : text.length ≤ Limits.ruleLength) {error : LexicalError} :
    tokenize alphabet text = .error error ↔
      ∃ pieces c rest place, alphabet.Cuts text.toList pieces (c :: rest) ∧
        place.IsBehind (pieces.flatMap Piece.chars) ∧ error = .invalidCharacter c place := by
  rw [tokenize_of_le hlength]
  constructor
  · intro h
    obtain ⟨pieces, rest, hcuts⟩ := Alphabet.exists_cuts alphabet text.toList
    rw [hcuts.toExcept_lex] at h
    cases rest with
    | nil => cases h
    | cons c rest =>
        exact ⟨pieces, c, rest, _, hcuts, (hcuts.isBehind_iff hlength).2 rfl,
          (Except.error.inj h).symm⟩
  · rintro ⟨pieces, c, rest, place, hcuts, hplace, rfl⟩
    rw [hcuts.toExcept_lex, (hcuts.isBehind_iff hlength).1 hplace]

/-- Lexing is exact. The tokens that an analyzer finds in a text are those of its only split into
pieces, which are the text without its blanks, and tokens with any blanks about them come back from
their characters. A text without a split is refused for the first character that starts no piece,
such as a colon without its equals sign, and a text that is too long for its length. -/
theorem Analyzer.tokenize_exact (analyzer : Analyzer) (alphabet : Alphabet) (text : String) :
    let read := (analyzer.tokenize alphabet text).1
    (text.length ≤ Limits.ruleLength →
      (∀ tokens, read = .ok tokens ↔
        ∃ pieces, alphabet.Splits text.toList pieces ∧
          tokens = Piece.spannedAll .start pieces) ∧
      (∀ pieces, alphabet.Splits text.toList pieces →
        (∀ other, alphabet.Splits text.toList other → other = pieces) ∧
        (Piece.spannedAll .start pieces).map Spanned.value = pieces.filterMap Piece.token? ∧
        (pieces.filterMap Piece.token?).flatMap Token.chars =
          text.toList.filter fun c => !Text.isBlank c) ∧
      (∀ (lead : List Char) (spaced : List (Token × List Char)),
        (∀ c ∈ lead, Text.isBlank c = true) →
        (∀ entry ∈ spaced,
          alphabet.hasToken entry.1 = true ∧ ∀ c ∈ entry.2, Text.isBlank c = true) →
        lead ++ spaced.flatMap (fun entry => entry.1.chars ++ entry.2) = text.toList →
        ∃ tokens, read = .ok tokens ∧ tokens.map Spanned.value = spaced.map Prod.fst) ∧
      (∀ error, read = .error error ↔
        ∃ pieces c rest place, alphabet.Cuts text.toList pieces (c :: rest) ∧
          place.IsBehind (pieces.flatMap Piece.chars) ∧ error = .invalidCharacter c place) ∧
      (∀ (pieces : List Piece) (rest : List Char),
        (∀ p ∈ pieces, alphabet.admits p = true) →
        pieces.flatMap Piece.chars ++ ':' :: rest = text.toList → rest.head? ≠ some '=' →
        ∃ place : Position, place.IsBehind (pieces.flatMap Piece.chars) ∧
          read = .error (.invalidCharacter ':' place))) ∧
    (Limits.ruleLength < text.length → read = .error (.tooLong text.length)) := by
  dsimp only
  rw [analyzer.fst_tokenize]
  refine ⟨fun hlength => ⟨fun tokens => tokenize_eq_ok_iff_splits hlength, ?_, ?_,
    fun error => tokenize_eq_error_iff_cuts hlength, ?_⟩, fun hlong => ?_⟩
  · intro pieces hsplit
    exact ⟨fun other h => h.unique hsplit, Piece.values_spannedAll .start pieces,
      hsplit.filter_eq.symm⟩
  · intro lead spaced hlead hspaced hwhole
    obtain ⟨pieces, hsplit, htokens⟩ := Alphabet.exists_splits_of_spaced hlead hspaced
    rw [hwhole] at hsplit
    refine ⟨Piece.spannedAll .start pieces,
      (tokenize_eq_ok_iff_splits hlength).2 ⟨pieces, hsplit, rfl⟩, ?_⟩
    rw [Piece.values_spannedAll, htokens]
  · intro pieces rest hadmitted hwhole hcolon
    have hcuts : alphabet.Cuts text.toList pieces (':' :: rest) :=
      ⟨hadmitted, hwhole, Alphabet.halts_colon hcolon⟩
    have hplace := (hcuts.isBehind_iff hlength).2 rfl
    exact ⟨_, hplace, (tokenize_eq_error_iff_cuts hlength).2
      ⟨pieces, ':', rest, _, hcuts, hplace, rfl⟩⟩
  · rw [Lindenmayer.tokenize, checkLength, if_neg (Nat.not_le.2 hlong)]
    rfl

-- a blank splits the colon from its equals sign
example : (({} : Analyzer).tokenize .strict "F: =G").1 =
    .error (.invalidCharacter ':' ⟨1, 1, 2⟩) := by cbv

end Lindenmayer
