/-!
# Cutting texts

A text cut to a number of bytes of UTF-8, between two characters, and a text cut in two at
the last place that holds a character.
-/

namespace Lindenmayer.Text

/-- The place at an offset is the one that has it. -/
theorem pos?_eq_some_iff {s : String} {offset : String.Pos.Raw} {place : s.Pos} :
    s.pos? offset = some place ↔ place.offset = offset := by
  rw [String.pos?, String.Slice.pos?]
  constructor
  · intro h
    split at h
    · cases h
      rfl
    · cases h
  · rintro rfl
    rw [dif_pos (String.Pos.Raw.isValidForSlice_eq_true_iff.2 place.isValid.toSlice)]
    rfl

/-- The last place between two characters that has at most this many bytes before it. The search
goes back byte by byte, and fails where it would have to go on before the start of the text. -/
def lastPlace? (s : String) : (bytes : Nat) → Option s.Pos
  | 0 => s.pos? 0
  | bytes + 1 =>
      match s.pos? ⟨bytes + 1⟩ with
      | some place => some place
      | none => lastPlace? s bytes

/-- The search ends at the start of the text at the latest. -/
theorem isSome_lastPlace? (s : String) (bytes : Nat) : (lastPlace? s bytes).isSome := by
  induction bytes with
  | zero => rw [lastPlace?, pos?_eq_some_iff.2 s.offset_startPos]; rfl
  | succ bytes ih =>
      rw [lastPlace?]
      split
      · rfl
      · exact ih

/-- A text that does not fit into a number of bytes is cut at the last place within them. -/
def cut? (bytes : Nat) (s : String) : Option String :=
  if s.utf8ByteSize ≤ bytes then some s
  else (lastPlace? s bytes).map fun place => (s.sliceTo place).copy

theorem isSome_cut? (bytes : Nat) (s : String) : (cut? bytes s).isSome := by
  rw [cut?]
  split
  · rfl
  · rw [Option.isSome_map]
    exact isSome_lastPlace? s bytes

/-- The longest beginning of a text that fits into a number of bytes. -/
def cut (bytes : Nat) (s : String) : String := (cut? bytes s).get (isSome_cut? bytes s)

/-- What stands before the last place that holds a character, and what stands after it. -/
def splitLast? (c : Char) : List Char → Option (List Char × List Char)
  | [] => none
  | d :: rest =>
      match splitLast? c rest with
      | some (before, after) => some (d :: before, after)
      | none => if d = c then some ([], rest) else none

end Lindenmayer.Text
