import Lindenmayer.Proofs.Turtle.Stepping
import Lindenmayer.Proofs.Word.Brackets

/-!
# Walks and brackets

The frames of a walk are the opening brackets without a partner among the tokens it took, so
the brackets of a word alone say how a walk along it ends, for every builder:

* a token is taken, or the walk fails, as the brackets say (`Walk.explains_step`), and so is
  a row of tokens (`Walk.explains_along`);
* so whatever a walk along a whole word comes to, the brackets without a partner and the peak
  of the word explain it (`Word.explains_walkAlong`).
-/

namespace Lindenmayer

namespace Walk

variable {σ : Type} (settings : TurtleSettings) (builder : CurveBuilder σ)

/-- The opening brackets that a walk has taken and that are still open. -/
def brackets (walk : Walk σ) : Unmatched := ⟨0, walk.frames.size⟩

/-- What a walk came to is as the brackets it took and their peak say. -/
def Explains (taken : Unmatched) (peak : Nat) : Except StructuralError (Walk σ) → Prop
  | .ok last => last.brackets = taken ∧ peak ≤ Limits.branchStack
  | .error (.unmatchedPop _) => 0 < taken.closing
  | .error (.stackOverflow _ _ _) => Limits.branchStack < peak
  | .error (.unclosedBranches _) => False

/-- Of the peak, only whether it fits is said. -/
theorem Explains.congr {taken : Unmatched} {peak peak' : Nat}
    {result : Except StructuralError (Walk σ)} (h : Explains taken peak result)
    (hpeak : peak' ≤ Limits.branchStack ↔ peak ≤ Limits.branchStack) :
    Explains taken peak' result := by
  unfold Explains at h ⊢
  split at h
  · exact ⟨h.1, hpeak.2 h.2⟩
  · exact h
  · exact Nat.lt_of_not_le fun hle => Nat.not_le_of_lt h (hpeak.1 hle)
  · exact h

theorem explains_push (index : Nat) (walk : Walk σ) :
    Explains (walk.brackets.take .push) (walk.brackets.take .push).opening
      (walk.push builder index) := by
  unfold push
  dsimp only
  split
  · next hroom =>
    refine ⟨?_, hroom⟩
    show Unmatched.mk 0 (Array.push _ _).size = _
    rw [Array.size_push]
    rfl
  · next hfull => exact Nat.lt_succ_of_le (Nat.le_of_not_lt hfull)

theorem explains_pop (index : Nat) (walk : Walk σ)
    (hfits : walk.frames.size ≤ Limits.branchStack) :
    Explains (walk.brackets.take .pop) (walk.brackets.take .pop).opening
      (walk.pop builder index) := by
  unfold brackets
  rcases hsize : walk.frames.size with _ | n
  · rw [pop_of_empty (Array.eq_empty_of_size_eq_zero hsize)]
    exact Nat.one_pos
  · obtain ⟨outer, frame, hframes⟩ := Array.exists_push_of_size_eq_add_one hsize
    have houter : outer.size = n := by
      rw [hframes, Array.size_push] at hsize
      exact Nat.succ.inj hsize
    rw [pop_of_push hframes]
    refine ⟨?_, ?_⟩
    · show Unmatched.mk 0 outer.size = ⟨0, n⟩
      rw [houter]
    · show n ≤ Limits.branchStack
      omega

/-- One token is taken as its bracket says. -/
theorem explains_step (index : Nat) (t : Token) (walk : Walk σ)
    (hfits : walk.frames.size ≤ Limits.branchStack) :
    Explains (walk.brackets.take t) (walk.brackets.take t).opening
      (walk.step settings builder index t) := by
  cases t with
  | push => exact explains_push builder index walk
  | pop => exact explains_pop builder index walk hfits
  | symbol letter =>
      unfold step
      dsimp only
      split <;> exact ⟨rfl, hfits⟩
  | direction | assign | finish => exact ⟨rfl, hfits⟩

/-- A row of tokens is taken as its brackets say. -/
theorem explains_along (word : Word) (index : Nat) (walk : Walk σ)
    (hfits : walk.frames.size ≤ Limits.branchStack) :
    Explains (word.foldl Unmatched.take walk.brackets) (walk.brackets.peak word)
      (walk.along settings builder index word) := by
  induction word generalizing index walk with
  | nil => exact ⟨rfl, hfits⟩
  | cons t rest ih =>
      have hstep := explains_step settings builder index t walk hfits
      rw [along_cons, List.foldl_cons, Unmatched.peak_cons]
      cases hnext : walk.step settings builder index t with
      | ok next =>
          rw [hnext] at hstep
          obtain ⟨hbrackets, hopening⟩ := hstep
          rw [← hbrackets] at hopening ⊢
          have hrest := ih (index + 1) next hopening
          have hmax : max walk.brackets.opening (next.brackets.peak rest) ≤ Limits.branchStack ↔
              next.brackets.peak rest ≤ Limits.branchStack := by
            rw [Nat.max_le]
            exact and_iff_right hfits
          show Explains _ _ (next.along settings builder (index + 1) rest)
          exact hrest.congr hmax
      | error error =>
          rw [hnext] at hstep
          cases error with
          | unmatchedPop i =>
              exact Nat.lt_of_lt_of_le hstep (Unmatched.closing_le_foldl_take _ rest)
          | stackOverflow i depth limit =>
              have hpeak := Unmatched.opening_le_peak (walk.brackets.take t) rest
              exact Nat.lt_of_lt_of_le hstep (Nat.le_trans hpeak (Nat.le_max_right ..))
          | unclosedBranches opened => exact hstep

end Walk

/-- What a walk along the whole word came to is as the brackets left over and the peak say. -/
def Word.Explains {α : Type} (word : Word) : Except StructuralError α → Prop
  | .ok _ => word.unmatched = {} ∧ word.peak ≤ Limits.branchStack
  | .error (.unmatchedPop _) => 0 < word.unmatched.closing
  | .error (.unclosedBranches opened) => word.unmatched = ⟨0, opened⟩ ∧ 0 < opened
  | .error (.stackOverflow _ _ _) => Limits.branchStack < word.peak

/-- A walk along a whole word comes to what the brackets of the word say. -/
theorem Word.explains_walkAlong {σ : Type} (word : Word) (settings : TurtleSettings)
    (builder : CurveBuilder σ) (drawing : σ) :
    word.Explains (walkAlong settings builder drawing word) := by
  have hall := Walk.explains_along settings builder word 0 (.start settings builder drawing)
    (Nat.zero_le _)
  rw [show (Walk.start settings builder drawing).brackets = {} from rfl] at hall
  unfold walkAlong
  cases hlast : (Walk.start settings builder drawing).along settings builder 0 word with
  | error error =>
      rw [hlast] at hall
      cases error with
      | unmatchedPop index => exact hall
      | stackOverflow index depth limit => exact hall
      | unclosedBranches opened => exact hall.elim
  | ok last =>
      rw [hlast] at hall
      obtain ⟨hlast, hpeak⟩ := hall
      have hbrackets : word.unmatched = ⟨0, last.frames.size⟩ := hlast.symm
      show word.Explains last.close
      by_cases hempty : last.frames = #[]
      · rw [Walk.close_of_empty hempty]
        rw [hempty] at hbrackets
        exact ⟨hbrackets, hpeak⟩
      · rw [Walk.close_of_ne hempty]
        exact ⟨hbrackets, Array.size_pos_iff.2 hempty⟩

end Lindenmayer
