import Lindenmayer.Proofs.Outcome
import Lindenmayer.Turtle.Walk

/-!
# Walks, token by token

How a walk along a word is put together from walks along its parts (`along_cons`,
`along_append`), and what brackets do (`push_of_lt`, `pop_of_empty`, `pop_of_push`).
-/

namespace Lindenmayer.Walk

variable {σ : Type} {settings : TurtleSettings} {builder : CurveBuilder σ}

theorem step_push (index : Nat) (walk : Walk σ) :
    walk.step settings builder index .push = walk.push builder index := rfl

theorem step_pop (index : Nat) (walk : Walk σ) :
    walk.step settings builder index .pop = walk.pop builder index := rfl

theorem along_cons (index : Nat) (t : Token) (rest : Word) (walk : Walk σ) :
    walk.along settings builder index (t :: rest) =
      walk.step settings builder index t >>= along settings builder (index + 1) rest := by
  rw [along]
  cases walk.step settings builder index t <;> rfl

/-- A walk along two words is one after the other. -/
theorem along_append (index : Nat) (u v : Word) (walk : Walk σ) :
    walk.along settings builder index (u ++ v) =
      walk.along settings builder index u >>=
        along settings builder (index + u.length) v := by
  induction u generalizing index walk with
  | nil => rfl
  | cons t rest ih =>
      rw [List.cons_append, along_cons, along_cons]
      cases walk.step settings builder index t with
      | error error => rfl
      | ok next =>
          have hlength : index + (t :: rest).length = index + 1 + rest.length := by
            rw [List.length_cons]
            omega
          rw [hlength]
          exact ih (index + 1) next

/-- A branch is opened where a frame more fits. -/
theorem push_of_lt {walk : Walk σ} (h : walk.frames.size < Limits.branchStack) (index : Nat) :
    walk.push builder index = .ok
      { drawing := builder.branch walk.pose.position walk.drawing
        pose := walk.pose
        steps := 0
        frames := walk.frames.push ⟨walk.pose, walk.steps⟩
        jitter := walk.jitter
        summary :=
          { walk.summary with
            branches := walk.summary.branches + 1
            maxDepth := max walk.summary.maxDepth (walk.frames.size + 1) } } :=
  if_pos h

theorem push_of_full {walk : Walk σ} (h : ¬ walk.frames.size < Limits.branchStack)
    (index : Nat) :
    walk.push builder index =
      .error (.stackOverflow index (walk.frames.size + 1) Limits.branchStack) :=
  if_neg h

/-- Nothing is there to go back to. -/
theorem pop_of_empty {walk : Walk σ} (h : walk.frames = #[]) (index : Nat) :
    walk.pop builder index = .error (.unmatchedPop index) := by
  obtain ⟨drawing, pose, steps, frames, jitter, summary⟩ := walk
  cases h
  rfl

/-- The walk goes back to what was saved last. -/
theorem pop_of_push {walk : Walk σ} {outer : Array Frame} {frame : Frame}
    (h : walk.frames = outer.push frame) (index : Nat) :
    walk.pop builder index = .ok
      { drawing := builder.endBranch (walk.steps == 0) walk.drawing
        pose := frame.pose
        steps := frame.steps
        frames := outer
        jitter := walk.jitter
        summary :=
          if walk.steps == 0 then
            { walk.summary with discarded := walk.summary.discarded + 1 }
          else walk.summary } := by
  obtain ⟨drawing, pose, steps, frames, jitter, summary⟩ := walk
  cases h
  simp [pop]

/-- A walk is over where no branch is open. -/
theorem close_of_empty {walk : Walk σ} (h : walk.frames = #[]) :
    walk.close = .ok (walk.drawing, { walk.summary with finish := walk.pose.position }) := by
  unfold close
  rw [h]
  rfl

theorem close_of_ne {walk : Walk σ} (h : ¬ walk.frames = #[]) :
    walk.close = .error (.unclosedBranches walk.frames.size) := by
  have hopen : walk.frames.isEmpty = false := by simpa using h
  unfold close
  rw [hopen]
  rfl

end Lindenmayer.Walk
