import Lindenmayer.Proofs.Turtle.Stepping

/-!
# The shape of a walk

Lengths, angles, offsets, headings and origins move points about and do nothing else. Two walks
along one word with the same move symbol stay in step, however far apart the turtles are:

* they save frames together, their paths have as many steps, and their builders are told of the
  same kinds of events (`Walk.Alike`), which every token keeps (`Walk.Alike.step`);
* so both come to an end or both fail, with one and the same error (`Walk.Alike.along`);
* what is left of a drawing and a summary without their points is the same (`agree_walkAlong`).
-/

namespace Lindenmayer

/-- What an event says apart from points and tangents. -/
inductive CurveShape where
  | startPath
  | extendPath
  | branch
  | endBranch (discard : Bool)
deriving DecidableEq

/-- The event without its points and tangents. -/
def CurveEvent.shape : CurveEvent → CurveShape
  | startPath _ => .startPath
  | extendPath _ _ _ => .extendPath
  | branch _ => .branch
  | endBranch discard => .endBranch discard

/-- The summaries differ at most in where the turtle stands at the end. -/
def WalkSummary.SameCounts (summary summary' : WalkSummary) : Prop :=
  summary' = { summary with finish := summary'.finish }

/-- The drawings and the summaries of two walks differ in nothing but points. -/
def SameShape (drawn drawn' : Array CurveEvent × WalkSummary) : Prop :=
  drawn.1.map CurveEvent.shape = drawn'.1.map CurveEvent.shape ∧
    drawn.2.SameCounts drawn'.2

namespace Walk

/-- Two walks under way differ in nothing but points and offsets. -/
structure Alike (walk walk' : Walk (Array CurveEvent)) : Prop where
  shapes : walk.drawing.map CurveEvent.shape = walk'.drawing.map CurveEvent.shape
  steps : walk.steps = walk'.steps
  frames : walk.frames.map Frame.steps = walk'.frames.map Frame.steps
  summary : walk.summary = walk'.summary

variable {settings settings' : TurtleSettings} {walk walk' : Walk (Array CurveEvent)}

theorem alike_start (settings settings' : TurtleSettings) :
    Alike (.start settings .recorder #[]) (.start settings' .recorder #[]) where
  shapes := by simp [start, CurveBuilder.recorder, CurveEvent.shape]
  steps := rfl
  frames := rfl
  summary := rfl

namespace Alike

theorem size_frames (h : Alike walk walk') : walk.frames.size = walk'.frames.size := by
  have hsizes := congrArg Array.size h.frames
  simpa using hsizes

theorem forward (h : Alike walk walk') :
    Alike (walk.forward settings .recorder) (walk'.forward settings' .recorder) where
  shapes := by
    have hshapes := h.shapes
    simp [Walk.forward, CurveBuilder.recorder, CurveEvent.shape, hshapes]
  steps := congrArg Nat.succ h.steps
  frames := h.frames
  summary := by simp [Walk.forward, h.summary]

theorem rotate (h : Alike walk walk') (turn : Direction) :
    Alike (walk.rotate settings turn) (walk'.rotate settings' turn) where
  shapes := h.shapes
  steps := h.steps
  frames := h.frames
  summary := by simp [Walk.rotate, Walk.rotateBy, h.summary]

theorem push (h : Alike walk walk') (index : Nat) :
    Agree Alike (walk.push .recorder index) (walk'.push .recorder index) := by
  by_cases hroom : walk.frames.size < Limits.branchStack
  · have hroom' : walk'.frames.size < Limits.branchStack := by
      rw [← h.size_frames]
      exact hroom
    rw [push_of_lt hroom, push_of_lt hroom']
    refine .ok ⟨?_, rfl, ?_, ?_⟩
    · simp [CurveBuilder.recorder, CurveEvent.shape, h.shapes]
    · simp [h.frames, h.steps]
    · simp [h.summary, h.size_frames]
  · have hfull : ¬ walk'.frames.size < Limits.branchStack := by
      rw [← h.size_frames]
      exact hroom
    rw [push_of_full hroom, push_of_full hfull, h.size_frames]
    exact .error _

theorem pop (h : Alike walk walk') (index : Nat) :
    Agree Alike (walk.pop .recorder index) (walk'.pop .recorder index) := by
  have hframes := h.frames
  rcases hsize : walk.frames.size with _ | n
  · have hsize' : walk'.frames.size = 0 := by
      rw [← h.size_frames]
      exact hsize
    rw [pop_of_empty (Array.eq_empty_of_size_eq_zero hsize),
      pop_of_empty (Array.eq_empty_of_size_eq_zero hsize')]
    exact .error _
  · have hsize' : walk'.frames.size = n + 1 := by
      rw [← h.size_frames]
      exact hsize
    obtain ⟨outer, frame, hlast⟩ := Array.exists_push_of_size_eq_add_one hsize
    obtain ⟨outer', frame', hlast'⟩ := Array.exists_push_of_size_eq_add_one hsize'
    rw [hlast, hlast', Array.map_push, Array.map_push, Array.push_eq_push] at hframes
    obtain ⟨hframe, houter⟩ := hframes
    rw [pop_of_push hlast, pop_of_push hlast', ← h.steps, ← h.summary]
    refine .ok ⟨?_, hframe, houter, rfl⟩
    simp [CurveBuilder.recorder, CurveEvent.shape, h.shapes]

/-- A token keeps two walks in step. -/
theorem step (h : Alike walk walk') (hmove : settings.move = settings'.move) (index : Nat)
    (t : Token) :
    Agree Alike (walk.step settings .recorder index t)
      (walk'.step settings' .recorder index t) := by
  cases t with
  | symbol letter =>
      unfold Walk.step
      dsimp only
      rw [← hmove]
      split
      · exact .ok h.forward
      · exact .ok h
  | direction turn => exact .ok (h.rotate turn)
  | push => exact h.push index
  | pop => exact h.pop index
  | assign | finish => exact .ok h

/-- A row of tokens keeps two walks in step. -/
theorem along (h : Alike walk walk') (hmove : settings.move = settings'.move) (index : Nat)
    (word : Word) :
    Agree Alike (walk.along settings .recorder index word)
      (walk'.along settings' .recorder index word) := by
  induction word generalizing index walk walk' with
  | nil => exact .ok h
  | cons t rest ih =>
      rw [along_cons, along_cons]
      apply (h.step hmove index t).bind
      intro next next' hnext
      exact ih hnext (index + 1)

theorem close (h : Alike walk walk') : Agree SameShape walk.close walk'.close := by
  by_cases hempty : walk.frames = #[]
  · have hempty' : walk'.frames = #[] := by
      apply Array.eq_empty_of_size_eq_zero
      rw [← h.size_frames, hempty]
      rfl
    rw [close_of_empty hempty, close_of_empty hempty', ← h.summary]
    exact .ok ⟨h.shapes, rfl⟩
  · have hopen : ¬ walk'.frames = #[] := by
      intro hempty'
      apply hempty
      apply Array.eq_empty_of_size_eq_zero
      rw [h.size_frames, hempty']
      rfl
    rw [close_of_ne hempty, close_of_ne hopen, h.size_frames]
    exact .error _

end Alike

end Walk

/-- Two turtles with the same move symbol make drawings and summaries of one shape along a word, or
fail with the same error. -/
theorem agree_walkAlong {settings settings' : TurtleSettings}
    (hmove : settings.move = settings'.move) (word : Word) :
    Agree SameShape (walkAlong settings .recorder #[] word)
      (walkAlong settings' .recorder #[] word) := by
  apply ((Walk.alike_start settings settings').along hmove 0 word).bind
  intro last last' hlast
  exact hlast.close

end Lindenmayer
