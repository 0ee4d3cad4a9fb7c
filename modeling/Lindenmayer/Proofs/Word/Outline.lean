import Lindenmayer.Word

/-!
# Words by their structure

A word whose brackets match is a row of tokens and groups, and a group is such a word between
brackets. `Outline` is that structure, `Outline.word` the word it stands for. A word has at
most one outline (`Outline.word_injective`).
-/

namespace Lindenmayer

/-- The token opens or closes a group. -/
def Token.isBracket : Token → Bool
  | .push | .pop => true
  | .symbol _ | .assign | .direction _ | .finish => false

/-- A row of tokens and groups. -/
inductive Outline where
  | empty
  | plain (t : Token) (unbracketed : t.isBracket = false) (rest : Outline)
  | group (inner rest : Outline)

namespace Outline

/-- The word of an outline. -/
def word : Outline → Word
  | empty => []
  | plain t _ rest => t :: rest.word
  | group inner rest => .push :: inner.word ++ .pop :: rest.word

/-- The deepest nesting of groups. -/
def depth : Outline → Nat
  | empty => 0
  | plain _ _ rest => rest.depth
  | group inner rest => max (inner.depth + 1) rest.depth

/-- A word with an outline ends where a closing bracket or nothing follows, so the outline and
what follows can be told from the whole. -/
theorem word_append_inj {a b : Outline} {u v : Word} (hu : ∀ t ∈ u.head?, t = .pop)
    (hv : ∀ t ∈ v.head?, t = .pop) (h : a.word ++ u = b.word ++ v) : a = b ∧ u = v := by
  induction a generalizing b u v with
  | empty =>
      cases b with
      | empty => exact ⟨rfl, h⟩
      | plain t unbracketed rest =>
          simp only [word, List.nil_append, List.cons_append] at h
          have := hu t (by rw [h]; rfl)
          subst this
          cases unbracketed
      | group inner rest =>
          simp only [word, List.nil_append, List.cons_append] at h
          exact absurd (hu .push (by rw [h]; rfl)) (by decide)
  | plain t unbracketed rest ih =>
      cases b with
      | empty =>
          -- what follows `b` starts with a closing bracket, so it cannot start with `t`
          simp only [word, List.nil_append, List.cons_append] at h
          have := hv t (by rw [← h]; rfl)
          subst this
          cases unbracketed
      | plain t' unbracketed' rest' =>
          simp only [word, List.cons_append, List.cons.injEq] at h
          obtain ⟨rfl, h⟩ := h
          obtain ⟨rfl, rfl⟩ := ih hu hv h
          exact ⟨rfl, rfl⟩
      | group inner' rest' =>
          simp only [word, List.cons_append, List.cons.injEq] at h
          obtain ⟨rfl, -⟩ := h
          cases unbracketed
  | group inner rest ihInner ihRest =>
      cases b with
      | empty =>
          simp only [word, List.nil_append, List.cons_append] at h
          exact absurd (hv .push (by rw [← h]; rfl)) (by decide)
      | plain t' unbracketed' rest' =>
          simp only [word, List.cons_append, List.cons.injEq] at h
          obtain ⟨rfl, -⟩ := h
          cases unbracketed'
      | group inner' rest' =>
          simp only [word, List.cons_append, List.append_assoc, List.cons.injEq, true_and] at h
          obtain ⟨rfl, hrest⟩ := ihInner (by simp) (by simp) h
          simp only [List.cons.injEq, true_and] at hrest
          obtain ⟨rfl, rfl⟩ := ihRest hu hv hrest
          exact ⟨rfl, rfl⟩

/-- A word has at most one outline. -/
theorem word_injective {a b : Outline} (h : a.word = b.word) : a = b :=
  (word_append_inj (u := []) (v := []) (by simp) (by simp) (by rw [h])).1

end Outline

/-- The brackets of the word match. -/
def Word.WellNested (word : Word) : Prop := ∃ outline : Outline, outline.word = word

end Lindenmayer
