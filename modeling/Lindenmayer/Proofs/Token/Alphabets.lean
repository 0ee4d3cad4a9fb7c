import Lindenmayer.Proofs.Token.Pieces

/-!
# One text, two alphabets

What the strict alphabet has, the extended one has as well; what it has besides are the marks of
pitch and roll. So a text is read alike with both, or the strict reading breaks off at such a mark
and the extended one goes on behind it (`lex_alphabets`).
-/

namespace Lindenmayer

/-- The marks of turns that are no yaw. -/
def Direction.tilts : List Char := ['^', '&', '\\', '/']

theorem Direction.mark_mem_tilts {turn : Direction} (h : turn.axis ≠ .yaw) :
    turn.mark ∈ tilts := by
  rcases turn with ⟨axis, positive⟩
  cases axis with
  | yaw => exact absurd rfl h
  | pitch | roll => cases positive <;> decide

namespace Alphabet

theorem admits_extended {p : Piece} (h : strict.admits p = true) : extended.admits p = true := by
  cases p with
  | blank c => exact h
  | token t =>
      cases t with
      | direction turn => rfl
      | symbol | assign | push | pop | finish => exact h

/-- A piece that only the extended alphabet has is the mark of a turn that is no yaw. -/
theorem exists_tilt_of_admits {p : Piece} (hextended : extended.admits p = true)
    (hstrict : strict.admits p = false) :
    ∃ turn : Direction, turn.axis ≠ .yaw ∧ p = .token (.direction turn) := by
  cases p with
  | blank c =>
      rw [show strict.admits (.blank c) = extended.admits (.blank c) from rfl, hextended] at hstrict
      cases hstrict
  | token t =>
      cases t with
      | direction turn => exact ⟨turn, of_decide_eq_false hstrict, rfl⟩
      | symbol letter =>
          rw [show strict.admits (.token (.symbol letter)) =
            extended.admits (.token (.symbol letter)) from rfl, hextended] at hstrict
          cases hstrict
      | assign | push | pop => cases hstrict
      | finish => cases hextended

end Alphabet

/-- A text is read alike with both alphabets, or the strict reading breaks off at the mark of a
turn that is no yaw, and the extended one goes on from there. -/
theorem lex_alphabets (text : String) :
    lex .extended text = lex .strict text ∨
      ∃ tokens c position place more ending, c ∈ Direction.tilts ∧
        lex .strict text = ⟨tokens, .broken (.invalidCharacter c position) place⟩ ∧
        lex .extended text = ⟨tokens ++ more, ending⟩ := by
  obtain ⟨pieces, rest, hadmitted, hwhole, hhalts⟩ := Alphabet.strict.exists_cuts text.toList
  have hadmitted' : ∀ p ∈ pieces, Alphabet.extended.admits p = true := fun p hp =>
    Alphabet.admits_extended (hadmitted p hp)
  have hstrict := Lexer.run_pieces hadmitted .start rest
  have hextended := Lexer.run_pieces hadmitted' .start rest
  rw [hwhole] at hstrict hextended
  unfold lex Lexer.ofText
  rw [hstrict, hextended]
  cases rest with
  | nil =>
      rw [Lexer.run_nil, Lexer.run_nil]
      exact .inl rfl
  | cons c tail =>
      rw [Lexer.run_of_halts hhalts]
      by_cases hboth : Alphabet.extended.Halts (c :: tail)
      · rw [Lexer.run_of_halts hboth]
        exact .inl rfl
      · -- the extended alphabet has a piece there that the strict one has not
        obtain ⟨p, hp, hprefix⟩ : ∃ p, Alphabet.extended.admits p = true ∧
            p.chars <+: c :: tail := by
          simpa [Alphabet.Halts] using hboth
        have hnot : Alphabet.strict.admits p = false := by
          cases hadmits : Alphabet.strict.admits p with
          | false => rfl
          | true => exact absurd hprefix (hhalts p hadmits)
        obtain ⟨turn, htilt, rfl⟩ := Alphabet.exists_tilt_of_admits hp hnot
        obtain ⟨behind, hbehind⟩ := hprefix
        obtain ⟨rfl, -⟩ := List.cons.inj hbehind
        simp only [List.append_nil]
        exact .inr ⟨_, _, _, _, _, _, Direction.mark_mem_tilts htilt, rfl, rfl⟩

/-- All turns of a strict reading are yaws. -/
theorem axis_of_mem_lex_strict {text : String} {turn : Direction}
    (h : .direction turn ∈ (lex .strict text).values) : turn.axis = .yaw := by
  obtain ⟨pieces, rest, hcuts⟩ := Alphabet.strict.exists_cuts text.toList
  obtain ⟨ending, hlex, -⟩ := hcuts.exists_lex_eq
  rw [hlex, Lexed.values, Piece.values_spannedAll, List.mem_filterMap] at h
  obtain ⟨p, hp, htoken⟩ := h
  have hadmits := hcuts.admitted p hp
  cases p with
  | blank c => cases htoken
  | token t =>
      cases htoken
      exact of_decide_eq_true hadmits

end Lindenmayer
