import Lindenmayer.Journal.Event

/-!
# Messages in the journal

The message of an event that is entered is cut to a number of bytes.

* The search for the place to cut at ends, at the last place that is within the bytes
  (`last_of_lastPlace?`).
* So what is kept is the longest beginning that fits (`longest_cut?`). As a character takes four
  bytes at most, it is three bytes short of the limit at most (`LongestBeginning.le_add_three`).
-/

namespace Lindenmayer

namespace Text

/-- The second text is the longest beginning of the first that fits into a number of bytes. -/
structure LongestBeginning (bytes : Nat) (s t : String) : Prop where
  begins : ∃ rest, s = t ++ rest
  fits : t.utf8ByteSize ≤ bytes
  longest : ∀ other rest, s = other ++ rest → other.utf8ByteSize ≤ bytes →
    ∃ more, t = other ++ more

section

variable {bytes : Nat} {s t : String}

theorem last_of_pos? {place : s.Pos} (h : s.pos? ⟨bytes⟩ = some place) :
    place.offset.byteIdx ≤ bytes ∧
      ∀ other : s.Pos, other.offset.byteIdx ≤ bytes → other ≤ place := by
  have hplace := pos?_eq_some_iff.1 h
  refine ⟨by simp [hplace], ?_⟩
  intro other hother
  rw [String.Pos.le_iff, String.Pos.Raw.le_iff, hplace]
  exact hother

/-- The search finds a place within the bytes, and no other such place is behind it. -/
theorem last_of_lastPlace? {place : s.Pos} (h : lastPlace? s bytes = some place) :
    place.offset.byteIdx ≤ bytes ∧
      ∀ other : s.Pos, other.offset.byteIdx ≤ bytes → other ≤ place := by
  induction bytes with
  | zero => exact last_of_pos? h
  | succ bytes ih =>
      rw [lastPlace?] at h
      split at h
      · next found =>
        cases h
        exact last_of_pos? found
      · next missing =>
        obtain ⟨hplace, hlast⟩ := ih h
        refine ⟨Nat.le_succ_of_le hplace, ?_⟩
        intro other hother
        -- a place with all of the bytes before it would have been found
        have hne : other.offset.byteIdx ≠ bytes + 1 := by
          intro hbytes
          rw [pos?_eq_some_iff.2 (String.Pos.Raw.ext hbytes)] at missing
          cases missing
        exact hlast other (by omega)

theorem longest_of_fits (h : s.utf8ByteSize ≤ bytes) : LongestBeginning bytes s s where
  begins := ⟨"", String.append_empty.symm⟩
  fits := h
  longest := fun _ rest hrest _ => ⟨rest, hrest⟩

theorem longest_of_lastPlace? {place : s.Pos} (h : lastPlace? s bytes = some place) :
    LongestBeginning bytes s (s.sliceTo place).copy := by
  obtain ⟨hplace, hlast⟩ := last_of_lastPlace? h
  have hsplit := place.splits
  refine ⟨⟨_, hsplit.eq_append⟩, ?_, ?_⟩
  · rw [← String.byteIdx_rawEndPos, ← hsplit.offset_eq_rawEndPos]
    exact hplace
  · intro other rest hrest hfits
    have hother := String.Pos.splits_ofEqAppend hrest
    have hle : String.Pos.ofEqAppend hrest ≤ place := by
      apply hlast
      rw [hother.offset_eq_rawEndPos]
      exact hfits
    obtain ⟨more, hmore, -⟩ := (hother.le_iff_exists_eq_append hsplit).1 hle
    exact ⟨more, hmore⟩

/-- What is kept of a text is its longest beginning that fits. -/
theorem longest_cut? (h : cut? bytes s = some t) : LongestBeginning bytes s t := by
  rw [cut?] at h
  split at h
  · next hfits =>
    cases h
    exact longest_of_fits hfits
  · obtain ⟨place, hplace, rfl⟩ := Option.map_eq_some_iff.1 h
    exact longest_of_lastPlace? hplace

namespace LongestBeginning

theorem eq_of_fits (h : LongestBeginning bytes s t) (fits : s.utf8ByteSize ≤ bytes) : t = s := by
  obtain ⟨more, hmore⟩ := h.longest s "" String.append_empty.symm fits
  obtain ⟨rest, hrest⟩ := h.begins
  have hsizes := congrArg String.utf8ByteSize (hmore.trans (congrArg (· ++ more) hrest))
  simp only [String.utf8ByteSize_append] at hsizes
  have : rest = "" := String.utf8ByteSize_eq_zero_iff.1 (by omega)
  rw [hrest, this, String.append_empty]

/-- With the next character the beginning would no longer fit. -/
theorem le_add_three (h : LongestBeginning bytes s t) (exceeds : bytes < s.utf8ByteSize) :
    bytes ≤ t.utf8ByteSize + 3 := by
  obtain ⟨rest, hrest⟩ := h.begins
  cases hcs : rest.toList with
  | nil =>
      have hfits := h.fits
      rw [hrest, String.toList_eq_nil_iff.1 hcs, String.append_empty] at exceeds
      omega
  | cons c cs =>
      have hnext : s = (t ++ String.singleton c) ++ String.ofList cs := by
        rw [hrest, String.append_assoc]
        congr 1
        rw [← String.toList_inj, hcs]
        simp
      have hsize : (t ++ String.singleton c).utf8ByteSize = t.utf8ByteSize + c.utf8Size := by
        rw [String.utf8ByteSize_append, String.utf8ByteSize_singleton]
      have htoo : bytes < (t ++ String.singleton c).utf8ByteSize := by
        refine Nat.lt_of_not_le ?_
        intro hfits
        obtain ⟨more, hmore⟩ := h.longest _ _ hnext hfits
        have hsizes := congrArg String.utf8ByteSize hmore
        have hpos := c.utf8Size_pos
        rw [String.utf8ByteSize_append, hsize] at hsizes
        omega
      have hfour := c.utf8Size_le_four
      omega

end LongestBeginning

end

end Text

namespace Event

theorem message_noting (event : Event) (values : List (String × String)) :
    (event.noting values).message = event.message := rfl

/-- Of any message, events are entered with the longest beginning that takes up at most 2048 bytes,
which is found without going on before the start of the text: the whole of a message that fits, and
no less than 2045 bytes of any other. -/
theorem message_entered (message : String) :
    ∃ kept, Text.cut? Limits.messageBytes message = some kept ∧
      (∀ (event : Event) (values : List (String × String)), event.message = message →
        (event.entered values).message = kept) ∧
      Text.LongestBeginning 2048 message kept ∧
      (message.utf8ByteSize ≤ 2048 → kept = message) ∧
      (2048 < message.utf8ByteSize → 2048 ≤ kept.utf8ByteSize + 3) := by
  obtain ⟨kept, hkept⟩ := Option.isSome_iff_exists.1 (Text.isSome_cut? Limits.messageBytes message)
  have hlongest : Text.LongestBeginning 2048 message kept := Text.longest_cut? hkept
  refine ⟨kept, hkept, ?_, hlongest, hlongest.eq_of_fits, hlongest.le_add_three⟩
  rintro event values rfl
  rw [entered, message_noting]
  exact Option.get_of_eq_some _ hkept

end Event

end Lindenmayer
