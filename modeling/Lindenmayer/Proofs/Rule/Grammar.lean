import Lindenmayer.Proofs.Word.Outline

/-!
# The grammar of rule bodies

`body ::= (direction | symbol | '[' body ']') body | ε`, with the nesting of the branches as
an index. A derivation is an outline of the body (`Body.exists_outline`).
-/

namespace Lindenmayer

/-- The word is a body whose branches are nested so deep. -/
inductive Body : List Token → Nat → Prop
  | empty : Body [] 0
  | symbol {letter rest n} : Body rest n → Body (.symbol letter :: rest) n
  | direction {turn rest n} : Body rest n → Body (.direction turn :: rest) n
  | branch {inner rest m n} : Body inner m → Body rest n →
      Body (.push :: inner ++ .pop :: rest) (max (m + 1) n)

/-- Symbols and direction marks: bodies of one token. -/
def Token.isPlain : Token → Bool
  | .symbol _ | .direction _ => true
  | .assign | .push | .pop | .finish => false

theorem Body.of_isPlain {t : Token} (h : t.isPlain = true) : Body [t] 0 := by
  cases t with
  | symbol => exact .symbol .empty
  | direction => exact .direction .empty
  | assign | push | pop | finish => cases h

theorem Body.append {u v : List Token} {m n : Nat} (hu : Body u m) (hv : Body v n) :
    Body (u ++ v) (max m n) := by
  induction hu with
  | empty =>
      rw [Nat.zero_max]
      exact hv
  | symbol _ ih => exact .symbol ih
  | direction _ ih => exact .direction ih
  | branch inner _ _ ih =>
      rw [Nat.max_assoc, List.append_assoc]
      exact .branch inner ih

/-- `:=` has no place in the body of a rule. -/
theorem Body.assign_not_mem {word : List Token} {n : Nat} (h : Body word n) :
    Token.assign ∉ word := by
  induction h with
  | empty => exact List.not_mem_nil
  | symbol _ ih => simpa using ih
  | direction _ ih => simpa using ih
  | branch _ _ ihInner ih => simpa using ⟨ihInner, ih⟩

/-- The brackets of a body match, and are nested as deep as its index says. -/
theorem Body.exists_outline {word : List Token} {n : Nat} (h : Body word n) :
    ∃ outline : Outline, outline.word = word ∧ outline.depth = n := by
  induction h with
  | empty => exact ⟨.empty, rfl, rfl⟩
  | @symbol letter _ _ _ ih =>
      obtain ⟨rest, rfl, rfl⟩ := ih
      exact ⟨.plain (.symbol letter) rfl rest, rfl, rfl⟩
  | @direction turn _ _ _ ih =>
      obtain ⟨rest, rfl, rfl⟩ := ih
      exact ⟨.plain (.direction turn) rfl rest, rfl, rfl⟩
  | branch _ _ ihInner ih =>
      obtain ⟨inner, rfl, rfl⟩ := ihInner
      obtain ⟨rest, rfl, rfl⟩ := ih
      exact ⟨.group inner rest, rfl, rfl⟩

end Lindenmayer
