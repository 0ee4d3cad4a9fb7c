import Lindenmayer.Proofs.Word.Outline

/-!
# Brackets without a partner

Brackets are matched by nesting, from left to right. `Unmatched` counts those that find no
partner, and `Word.peak` how many are open at once at most. These facts carry everything else:

* words with outlines leave the count alone (`Outline.foldl_take`), and these are all the
  words with no bracket left over (`Word.wellNested_iff`);
* the brackets left over of two words together are known from those of each
  (`Unmatched.foldl_take_eq`), so what stands behind a place tells whether the place is in a
  branch that is closed (`Word.encloses_iff`);
* a word with an outline raises the peak by its depth (`Outline.peak_word`);
* the peak is what is open at some place and nowhere less than what is open
  (`Unmatched.opening_take_le_peak`, `Unmatched.exists_opening_take_eq_peak`), and tokens that are
  no brackets do not matter to it (`Unmatched.peak_filter`);
* putting such words for symbols therefore changes no count, and raises the peak by their
  depth at most (`Substituted.foldl_take`, `Substituted.peak_le`).
-/

namespace Lindenmayer

/-- Brackets without a partner. The closing ones stand before the opening ones. -/
structure Unmatched where
  closing : Nat := 0
  opening : Nat := 0
deriving DecidableEq

/-- One token more. A closing bracket is the partner of the last opening one that has none. -/
def Unmatched.take (brackets : Unmatched) (t : Token) : Unmatched :=
  match t, brackets with
  | .push, ⟨closing, opening⟩ => ⟨closing, opening + 1⟩
  | .pop, ⟨closing, 0⟩ => ⟨closing + 1, 0⟩
  | .pop, ⟨closing, opening + 1⟩ => ⟨closing, opening⟩
  | _, brackets => brackets

/-- The brackets of the word that have no partner. -/
def Word.unmatched (word : Word) : Unmatched := word.foldl Unmatched.take {}

/-- Most opening brackets without a partner at any place of the word, `brackets` standing
before it. -/
def Unmatched.peak (brackets : Unmatched) : Word → Nat
  | [] => brackets.opening
  | t :: rest => max brackets.opening ((brackets.take t).peak rest)

/-- Most opening brackets without a partner at any place of the word. -/
def Word.peak (word : Word) : Nat := ({} : Unmatched).peak word

namespace Unmatched

@[simp] theorem take_push (brackets : Unmatched) :
    brackets.take .push = ⟨brackets.closing, brackets.opening + 1⟩ := rfl

@[simp] theorem take_pop_zero (closing : Nat) :
    (Unmatched.mk closing 0).take .pop = ⟨closing + 1, 0⟩ := by
  simp only [take]

@[simp] theorem take_pop_succ (closing opening : Nat) :
    (Unmatched.mk closing (opening + 1)).take .pop = ⟨closing, opening⟩ := rfl

@[simp] theorem take_plain (brackets : Unmatched) {t : Token} (h : t.isBracket = false) :
    brackets.take t = brackets := by
  cases t <;> simp_all [take, Token.isBracket]

/-- Opening brackets that stand before a word are partners for the closing ones that it leaves
over. -/
theorem foldl_take_eq (brackets : Unmatched) (word : Word) :
    word.foldl take brackets =
      ⟨brackets.closing + (word.unmatched.closing - brackets.opening),
        word.unmatched.opening + (brackets.opening - word.unmatched.closing)⟩ := by
  induction word generalizing brackets with
  | nil => simp [Word.unmatched]
  | cons t rest ih =>
      have hunmatched : Word.unmatched (t :: rest) = rest.foldl take (take {} t) := rfl
      obtain ⟨closing, opening⟩ := brackets
      rw [List.foldl_cons, ih, hunmatched, ih (take {} t)]
      cases t with
      | push => simp; omega
      | pop =>
          cases opening with
          | zero => simp; omega
          | succ opening => simp; omega
      | symbol | assign | direction | finish => simp [take]

/-- A closing bracket once left over stays left over. -/
theorem closing_le_foldl_take (brackets : Unmatched) (word : Word) :
    brackets.closing ≤ (word.foldl take brackets).closing := by
  rw [foldl_take_eq]
  exact Nat.le_add_right ..

/-- The surplus of opening brackets is that of the word over what stood before it. -/
theorem foldl_take_surplus (brackets : Unmatched) (word : Word) :
    ((word.foldl take brackets).opening : Int) - (word.foldl take brackets).closing =
      brackets.opening - brackets.closing + (word.count .push - word.count .pop) := by
  induction word generalizing brackets with
  | nil => simp
  | cons t rest ih =>
      rw [List.foldl_cons, ih]
      cases t with
      | push => simp; omega
      | pop =>
          obtain ⟨closing, opening⟩ := brackets
          cases opening <;> simp <;> omega
      | symbol | assign | direction | finish => simp [take]

theorem peak_cons (brackets : Unmatched) (t : Token) (rest : Word) :
    brackets.peak (t :: rest) = max brackets.opening ((brackets.take t).peak rest) := rfl

theorem opening_le_peak (brackets : Unmatched) (word : Word) :
    brackets.opening ≤ brackets.peak word := by
  cases word with
  | nil => exact Nat.le_refl _
  | cons t rest => exact Nat.le_max_left _ _

theorem peak_append (brackets : Unmatched) (u v : Word) :
    brackets.peak (u ++ v) = max (brackets.peak u) ((u.foldl take brackets).peak v) := by
  induction u generalizing brackets with
  | nil => exact (Nat.max_eq_right (opening_le_peak brackets v)).symm
  | cons t rest ih =>
      rw [List.cons_append, peak_cons, ih, peak_cons, List.foldl_cons, Nat.max_assoc]

/-- Each token opens one bracket at most. -/
theorem peak_le (brackets : Unmatched) (word : Word) :
    brackets.peak word ≤ brackets.opening + word.length := by
  induction word generalizing brackets with
  | nil => exact Nat.le_refl _
  | cons t rest ih =>
      have hstep : (brackets.take t).opening ≤ brackets.opening + 1 := by
        unfold take
        split <;> simp
        all_goals omega
      have := ih (brackets.take t)
      rw [peak_cons, List.length_cons]
      omega

end Unmatched

/-- The surplus of opening brackets over closing ones. -/
theorem Word.unmatched_surplus (word : Word) :
    (word.count .push : Int) - word.count .pop =
      word.unmatched.opening - word.unmatched.closing := by
  have h := Unmatched.foldl_take_surplus {} word
  rw [show word.foldl Unmatched.take {} = word.unmatched from rfl] at h
  simp only [Int.ofNat_zero, Int.sub_zero, Int.zero_add] at h
  exact h.symm

/-! ## Words whose brackets match -/

namespace Outline

/-- Matching brackets leave nothing over and take no partner away. -/
theorem foldl_take (outline : Outline) (brackets : Unmatched) :
    outline.word.foldl Unmatched.take brackets = brackets := by
  induction outline generalizing brackets with
  | empty => rfl
  | plain t unbracketed rest ih =>
      rw [word, List.foldl_cons, Unmatched.take_plain brackets unbracketed, ih]
  | group inner rest ihInner ihRest =>
      rw [word, List.cons_append, List.foldl_cons, List.foldl_append, ihInner, List.foldl_cons,
        Unmatched.take_push, Unmatched.take_pop_succ, ihRest]

/-- The peak of matching brackets is their depth above what stood before them. -/
theorem peak_word (outline : Outline) (brackets : Unmatched) :
    brackets.peak outline.word = brackets.opening + outline.depth := by
  induction outline generalizing brackets with
  | empty => rfl
  | plain t unbracketed rest ih =>
      rw [word, Unmatched.peak_cons, Unmatched.take_plain brackets unbracketed, ih, depth]
      omega
  | group inner rest ihInner ihRest =>
      rw [word, List.cons_append, Unmatched.peak_cons, Unmatched.peak_append, ihInner,
        foldl_take, Unmatched.peak_cons, Unmatched.take_push, Unmatched.take_pop_succ, ihRest,
        depth]
      dsimp only
      omega

end Outline

/-- The word closes `n` groups that stand open before it, and has matching brackets apart
from that. -/
def Word.Closes : Nat → Word → Prop
  | 0, word => word.WellNested
  | n + 1, word => ∃ (outline : Outline) (rest : Word),
      word = outline.word ++ .pop :: rest ∧ Closes n rest

/-- A word that leaves no bracket over closes what stands open before it. -/
theorem Word.closes_of_foldl_take {word : Word} {n : Nat}
    (h : word.foldl Unmatched.take ⟨0, n⟩ = {}) : word.Closes n := by
  induction word generalizing n with
  | nil =>
      cases n with
      | zero => exact ⟨.empty, rfl⟩
      | succ n => cases h
  | cons t rest ih =>
      rw [List.foldl_cons] at h
      by_cases bracket : t.isBracket = false
      · rw [Unmatched.take_plain _ bracket] at h
        cases n with
        | zero =>
            obtain ⟨outline, rfl⟩ := ih h
            exact ⟨.plain t bracket outline, rfl⟩
        | succ n =>
            obtain ⟨outline, tail, rfl, htail⟩ := ih h
            exact ⟨.plain t bracket outline, tail, rfl, htail⟩
      · cases t with
        | push =>
            obtain ⟨inner, tail, rfl, htail⟩ := ih h
            cases n with
            | zero =>
                obtain ⟨outline, rfl⟩ := htail
                exact ⟨.group inner outline, rfl⟩
            | succ n =>
                obtain ⟨outline, tail', rfl, htail'⟩ := htail
                exact ⟨.group inner outline, tail', by simp [Outline.word], htail'⟩
        | pop =>
            cases n with
            | zero =>
                have hle := Unmatched.closing_le_foldl_take ⟨1, 0⟩ rest
                rw [show rest.foldl Unmatched.take ⟨1, 0⟩ = {} from h] at hle
                exact absurd hle (by decide)
            | succ n => exact ⟨.empty, rest, rfl, ih h⟩
        | symbol | assign | direction | finish => exact absurd rfl bracket

/-- The brackets of a word match if and only if none is left over. -/
theorem Word.wellNested_iff (word : Word) : word.WellNested ↔ word.unmatched = {} := by
  constructor
  · rintro ⟨outline, rfl⟩
    exact outline.foldl_take {}
  · intro h
    exact closes_of_foldl_take h

/-! ## Brackets around a place -/

/-- A bracket that is opened in the first word is closed in the second. -/
def Word.Encloses (u v : Word) : Prop :=
  ∃ a b c d : Word, u = a ++ .push :: b ∧ v = c ++ .pop :: d ∧ (b ++ c).WellNested

namespace Word

theorem unmatched_cons (t : Token) (word : Word) :
    unmatched (t :: word) = word.foldl Unmatched.take (Unmatched.take {} t) := rfl

theorem closing_cons_push (word : Word) :
    (unmatched (.push :: word)).closing = word.unmatched.closing - 1 := by
  rw [unmatched_cons, Unmatched.foldl_take_eq]
  exact Nat.zero_add _

theorem closing_cons_pop (word : Word) :
    (unmatched (.pop :: word)).closing = word.unmatched.closing + 1 := by
  rw [unmatched_cons, Unmatched.foldl_take_eq]
  exact Nat.add_comm 1 _

theorem unmatched_cons_plain {t : Token} (h : t.isBracket = false) (word : Word) :
    unmatched (t :: word) = word.unmatched := by
  rw [unmatched_cons, Unmatched.take_plain _ h]
  rfl

theorem unmatched_append (u v : Word) :
    unmatched (u ++ v) = v.foldl Unmatched.take u.unmatched := List.foldl_append

/-- Behind the last opening bracket without a partner all brackets match. -/
theorem exists_of_opening_ne_zero {word : Word} (h : word.unmatched.opening ≠ 0) :
    ∃ a b : Word, word = a ++ .push :: b ∧ b.unmatched = {} := by
  induction word with
  | nil => exact absurd rfl h
  | cons t rest ih =>
      by_cases hrest : (unmatched rest).opening = 0
      · rw [unmatched_cons, Unmatched.foldl_take_eq, hrest, Nat.zero_add] at h
        cases t with
        | push =>
            have hclosing : (unmatched rest).closing = 0 := by
              rw [Unmatched.take_push] at h
              dsimp only at h
              omega
            exact ⟨[], rest, rfl, congr (congrArg Unmatched.mk hclosing) hrest⟩
        | pop | symbol | assign | direction | finish => exact absurd (Nat.zero_sub _) h
      · obtain ⟨a, b, rfl, hb⟩ := ih hrest
        exact ⟨t :: a, b, rfl, hb⟩

/-- Before the first closing bracket that is left over, all those that stand open are closed. -/
theorem exists_of_closing_ne_zero {word : Word} {n : Nat}
    (h : (word.foldl Unmatched.take ⟨0, n⟩).closing ≠ 0) :
    ∃ c d : Word, word = c ++ .pop :: d ∧ c.foldl Unmatched.take ⟨0, n⟩ = {} := by
  induction word generalizing n with
  | nil => exact absurd rfl h
  | cons t rest ih =>
      cases t with
      | pop =>
          cases n with
          | zero => exact ⟨[], rest, rfl, rfl⟩
          | succ n =>
              obtain ⟨c, d, rfl, hc⟩ := ih h
              exact ⟨.pop :: c, d, rfl, hc⟩
      | push | symbol | assign | direction | finish =>
          obtain ⟨c, d, rfl, hc⟩ := ih h
          exact ⟨_ :: c, d, rfl, hc⟩

/-- In a word that closes no more than it opens, a place is in a branch that is closed if what
stands behind it leaves a closing bracket over. -/
theorem encloses_iff {u v : Word} (h : (u ++ v).unmatched.closing = 0) :
    Encloses u v ↔ v.unmatched.closing ≠ 0 := by
  constructor
  · rintro ⟨a, b, c, d, rfl, rfl, hnested⟩
    rw [wellNested_iff, unmatched_append, Unmatched.foldl_take_eq, Unmatched.mk.injEq] at hnested
    rw [unmatched_append, Unmatched.foldl_take_eq, unmatched_cons, Unmatched.foldl_take_eq]
    simp only [Unmatched.take_pop_zero]
    omega
  · intro hclosing
    obtain ⟨c, d, rfl, hc⟩ := exists_of_closing_ne_zero hclosing
    rw [unmatched_append, Unmatched.foldl_take_eq] at h
    dsimp only at h
    have hopening : u.unmatched.opening ≠ 0 := by omega
    obtain ⟨a, b, rfl, hb⟩ := exists_of_opening_ne_zero hopening
    refine ⟨a, b, c, d, rfl, rfl, (wellNested_iff _).2 ?_⟩
    rw [unmatched_append, hb]
    exact hc

end Word

/-! ## Parts of a word -/

namespace Unmatched

/-- Tokens that are no brackets may be left out. -/
theorem foldl_take_filter {p : Token → Bool} (hp : ∀ t : Token, p t = false → t.isBracket = false)
    (brackets : Unmatched) (word : Word) :
    (word.filter p).foldl take brackets = word.foldl take brackets := by
  induction word generalizing brackets with
  | nil => rfl
  | cons t rest ih =>
      cases hkeep : p t with
      | true =>
          rw [List.filter_cons_of_pos hkeep, List.foldl_cons, List.foldl_cons]
          exact ih _
      | false =>
          rw [List.filter_cons_of_neg (by simp [hkeep]), List.foldl_cons,
            take_plain brackets (hp t hkeep)]
          exact ih _

theorem peak_filter {p : Token → Bool} (hp : ∀ t : Token, p t = false → t.isBracket = false)
    (brackets : Unmatched) (word : Word) :
    brackets.peak (word.filter p) = brackets.peak word := by
  induction word generalizing brackets with
  | nil => rfl
  | cons t rest ih =>
      cases hkeep : p t with
      | true =>
          rw [List.filter_cons_of_pos hkeep, peak_cons, peak_cons, ih]
      | false =>
          have hle := opening_le_peak brackets rest
          rw [List.filter_cons_of_neg (by simp [hkeep]), peak_cons,
            take_plain brackets (hp t hkeep), ih]
          exact (Nat.max_eq_right hle).symm

/-- No more brackets are open at a place than the peak says. -/
theorem opening_take_le_peak (brackets : Unmatched) (word : Word) (n : Nat) :
    ((word.take n).foldl take brackets).opening ≤ brackets.peak word := by
  have hsplit := peak_append brackets (word.take n) (word.drop n)
  rw [List.take_append_drop] at hsplit
  have hplace := opening_le_peak ((word.take n).foldl take brackets) (word.drop n)
  rw [hsplit]
  exact Nat.le_trans hplace (Nat.le_max_right ..)

/-- As many brackets as the peak says are open at some place. -/
theorem exists_opening_take_eq_peak (brackets : Unmatched) (word : Word) :
    ∃ n, ((word.take n).foldl take brackets).opening = brackets.peak word := by
  induction word generalizing brackets with
  | nil => exact ⟨0, rfl⟩
  | cons t rest ih =>
      rw [peak_cons]
      obtain ⟨n, hn⟩ := ih (brackets.take t)
      rcases Nat.le_total ((brackets.take t).peak rest) brackets.opening with hle | hle
      · exact ⟨0, (Nat.max_eq_left hle).symm⟩
      · refine ⟨n + 1, ?_⟩
        rw [Nat.max_eq_right hle]
        exact hn

end Unmatched

/-- Where brackets match, what is open at a place has been opened and not closed before it. -/
theorem Word.WellNested.count_push_take {word : Word} (h : word.WellNested) (n : Nat) :
    (word.take n).count .push =
      (Word.unmatched (word.take n)).opening + (word.take n).count .pop := by
  have hwhole : (word.drop n).foldl Unmatched.take (Word.unmatched (word.take n)) =
      word.unmatched := by
    rw [Word.unmatched, ← List.foldl_append, List.take_append_drop]
    rfl
  have hle := Unmatched.closing_le_foldl_take (Word.unmatched (word.take n)) (word.drop n)
  rw [hwhole, word.wellNested_iff.1 h] at hle
  have hclosed : (Word.unmatched (word.take n)).closing = 0 := Nat.le_zero.1 hle
  have hsurplus := Word.unmatched_surplus (word.take n)
  omega

theorem Word.WellNested.filter {word : Word} (h : word.WellNested) {p : Token → Bool}
    (hp : ∀ t : Token, p t = false → t.isBracket = false) : Word.WellNested (word.filter p) := by
  rw [Word.wellNested_iff] at h ⊢
  rw [← h]
  exact Unmatched.foldl_take_filter hp {} word

/-! ## Putting words for symbols -/

/-- `new` is `old` with words put for some of its symbols, whose brackets match and are nested
no deeper than `bound`. -/
inductive Substituted (bound : Nat) : Word → Word → Prop
  | nil : Substituted bound [] []
  | keep {t old new} : Substituted bound old new → Substituted bound (t :: old) (t :: new)
  | replace {letter old new} (outline : Outline) : outline.depth ≤ bound →
      Substituted bound old new → Substituted bound (.symbol letter :: old) (outline.word ++ new)

namespace Substituted

variable {bound : Nat} {old new : Word}

/-- No bracket gains or loses its partner. -/
theorem foldl_take (h : Substituted bound old new) (brackets : Unmatched) :
    new.foldl Unmatched.take brackets = old.foldl Unmatched.take brackets := by
  induction h generalizing brackets with
  | nil => rfl
  | keep _ ih => exact ih _
  | replace outline _ _ ih =>
      rw [List.foldl_append, outline.foldl_take, ih]
      rfl

theorem unmatched_eq (h : Substituted bound old new) : new.unmatched = old.unmatched :=
  h.foldl_take {}

/-- The peak rises by the depth of the words put in at most. -/
theorem peak_le (h : Substituted bound old new) (brackets : Unmatched) :
    brackets.peak new ≤ brackets.peak old + bound := by
  induction h generalizing brackets with
  | nil => exact Nat.le_add_right _ _
  | @keep t old new _ ih =>
      have := ih (brackets.take t)
      rw [Unmatched.peak_cons, Unmatched.peak_cons]
      omega
  | @replace letter old new outline hdepth _ ih =>
      have := ih brackets
      rw [Unmatched.peak_append, outline.peak_word, outline.foldl_take, Unmatched.peak_cons,
        Unmatched.take_plain brackets rfl]
      omega

end Substituted

end Lindenmayer
