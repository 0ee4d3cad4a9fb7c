import Lindenmayer.Proofs.Turtle.Reading

/-!
# What a walk tells its builder

What a turtle does depends on where it stands and on what its brackets have saved, never on what
has been drawn or counted. A stretch of a walk is therefore known by the events it tells and by
what it adds to the summary (`Stretch`):

* both follow the tokens that were taken (`Stretch.Covers`, with `nil` and `append`);
* the same tokens, taken from the same place with any builder, any drawing and any summary, tell
  and add the same (`exists_stretch_of_step`, `exists_stretch_of_along`).
-/

namespace Lindenmayer

/-- The token is one that a builder is told of. -/
def Token.isTold (move : Char) : Token → Bool
  | .symbol letter => letter = move
  | .push | .pop => true
  | .direction _ | .assign | .finish => false

namespace CurveEvent

/-- The token that a builder is told of by the event. The root path begins before all tokens. -/
def mark (move : Char) : CurveEvent → Token
  | startPath _ => .finish
  | extendPath _ _ _ => .symbol move
  | branch _ => .push
  | endBranch _ => .pop

/-- The tokens that a builder is told of by the events. -/
def marks (move : Char) (events : List CurveEvent) : Word := events.map (mark move)

/-- The event ends a path that is discarded. -/
def discards : CurveEvent → Bool
  | endBranch discard => discard
  | startPath _ | extendPath _ _ _ | branch _ => false

theorem marks_append (move : Char) (first second : List CurveEvent) :
    marks move (first ++ second) = marks move first ++ marks move second := List.map_append

end CurveEvent

/-- The summary of one stretch of a walk and of the stretch behind it. -/
def WalkSummary.append (first second : WalkSummary) : WalkSummary where
  forwardMoves := first.forwardMoves + second.forwardMoves
  rotations := first.rotations + second.rotations
  branches := first.branches + second.branches
  discarded := first.discarded + second.discarded
  maxDepth := max first.maxDepth second.maxDepth
  finish := first.finish

theorem WalkSummary.append_empty (summary : WalkSummary) : summary.append {} = summary := by
  simp [append]

theorem WalkSummary.append_assoc (first second third : WalkSummary) :
    (first.append second).append third = first.append (second.append third) := by
  simp [append, Nat.add_assoc, Nat.max_assoc]

/-- What a builder is told along a stretch of a walk, and what the summary gains. -/
structure Stretch where
  told : List CurveEvent := []
  gain : WalkSummary := {}

namespace Stretch

/-- One stretch and the one behind it. -/
def append (first second : Stretch) : Stretch :=
  ⟨first.told ++ second.told, first.gain.append second.gain⟩

/-- The stretch is one along the word. -/
structure Covers (move : Char) (word : Word) (stretch : Stretch) : Prop where
  marks : CurveEvent.marks move stretch.told = word.filter (Token.isTold move)
  forwardMoves : stretch.gain.forwardMoves = word.count (.symbol move)
  rotations : stretch.gain.rotations = word.countP Token.isDirection
  branches : stretch.gain.branches = word.count .push
  discarded : stretch.gain.discarded = stretch.told.countP CurveEvent.discards

theorem Covers.nil (move : Char) : Covers move [] {} := ⟨rfl, rfl, rfl, rfl, rfl⟩

theorem Covers.append {move : Char} {u v : Word} {first second : Stretch}
    (hu : first.Covers move u) (hv : second.Covers move v) :
    (first.append second).Covers move (u ++ v) where
  marks := by
    rw [List.filter_append, ← hu.marks, ← hv.marks]
    exact CurveEvent.marks_append ..
  forwardMoves := by
    rw [List.count_append, ← hu.forwardMoves, ← hv.forwardMoves]
    rfl
  rotations := by
    rw [List.countP_append, ← hu.rotations, ← hv.rotations]
    rfl
  branches := by
    rw [List.count_append, ← hu.branches, ← hv.branches]
    rfl
  discarded := by
    show first.gain.discarded + second.gain.discarded = _
    rw [hu.discarded, hv.discarded]
    exact List.countP_append.symm

end Stretch

namespace Walk

variable {σ τ : Type} {settings : TurtleSettings} {builder : CurveBuilder σ}

/-- The walk in the same place with another drawing and another summary. -/
def redrawn (walk : Walk σ) (drawing : τ) (summary : WalkSummary) : Walk τ where
  drawing := drawing
  pose := walk.pose
  steps := walk.steps
  frames := walk.frames
  jitter := walk.jitter
  summary := summary

/-- The stretch leads from the one walk to the other, whatever the builder, the drawing and the
summary are. -/
def Leads (settings : TurtleSettings) (word : Word) (walk last : Walk σ) (stretch : Stretch) :
    Prop :=
  ∀ ⦃τ : Type⦄ (builder : CurveBuilder τ) (drawing : τ) (summary : WalkSummary) (index : Nat),
    (walk.redrawn drawing summary).along settings builder index word =
      .ok (last.redrawn (builder.replay stretch.told drawing) (summary.append stretch.gain))

theorem along_singleton (index : Nat) (t : Token) (walk : Walk σ) :
    walk.along settings builder index [t] = walk.step settings builder index t := by
  rw [along]
  cases walk.step settings builder index t <;> rfl

theorem leads_nil (walk : Walk σ) : Leads settings [] walk walk {} := by
  intro τ builder drawing summary index
  rw [WalkSummary.append_empty]
  rfl

theorem Leads.append {u v : Word} {walk mid last : Walk σ} {first second : Stretch}
    (hu : Leads settings u walk mid first) (hv : Leads settings v mid last second) :
    Leads settings (u ++ v) walk last (first.append second) := by
  intro τ builder drawing summary index
  rw [along_append, hu, ok_bind, hv, WalkSummary.append_assoc]
  show _ = Except.ok (last.redrawn (builder.replay (first.told ++ second.told) drawing) _)
  rw [CurveBuilder.replay_append]
  rfl

/-- A token tells and adds the same from the same place. -/
theorem exists_stretch_of_step {index : Nat} {t : Token} {walk next : Walk σ}
    (h : walk.step settings builder index t = .ok next) :
    ∃ stretch : Stretch, stretch.Covers settings.move [t] ∧
      Leads settings [t] walk next stretch := by
  cases t with
  | symbol letter =>
      by_cases hmove : letter = settings.move
      · subst hmove
        have hnext : walk.forward settings builder = next := by simpa [step] using h
        subst hnext
        refine ⟨⟨[(walk.stance.stride settings).event], { forwardMoves := 1 }⟩, ?_, ?_⟩
        · constructor <;>
            simp [CurveEvent.marks, CurveEvent.mark, Stride.event, Token.isTold,
              Token.isDirection, CurveEvent.discards]
        · intro τ builder' drawing summary index'
          rw [along_singleton]
          simp [step, redrawn, forward, WalkSummary.append, CurveBuilder.take, Stride.event,
            Stance.stride, stance]
      · have hnext : walk = next := by simpa [step, hmove] using h
        subst hnext
        refine ⟨{}, ?_, ?_⟩
        · constructor <;> simp [CurveEvent.marks, Token.isTold, Token.isDirection, hmove]
        · intro τ builder' drawing summary index'
          rw [along_singleton, WalkSummary.append_empty]
          simp [step, hmove]
  | direction turn =>
      have hnext : walk.rotate settings turn = next := by simpa [step] using h
      subst hnext
      refine ⟨⟨[], { rotations := 1 }⟩, ?_, ?_⟩
      · constructor <;> simp [CurveEvent.marks, Token.isTold, Token.isDirection]
      · intro τ builder' drawing summary index'
        rw [along_singleton]
        simp [step, redrawn, rotate, rotateBy, WalkSummary.append]
  | push =>
      rw [step_push] at h
      by_cases hroom : walk.frames.size < Limits.branchStack
      · rw [push_of_lt hroom] at h
        cases h
        refine ⟨⟨[.branch walk.pose.position],
          { branches := 1, maxDepth := walk.frames.size + 1 }⟩, ⟨rfl, rfl, rfl, rfl, rfl⟩, ?_⟩
        · intro τ builder' drawing summary index'
          have hroom' : (walk.redrawn drawing summary).frames.size < Limits.branchStack := hroom
          rw [along_singleton, step_push, push_of_lt hroom']
          rfl
      · rw [push_of_full hroom] at h
        cases h
  | pop =>
      rw [step_pop] at h
      rcases hsize : walk.frames.size with _ | n
      · rw [pop_of_empty (Array.eq_empty_of_size_eq_zero hsize)] at h
        cases h
      · obtain ⟨outer, frame, hframes⟩ := Array.exists_push_of_size_eq_add_one hsize
        rw [pop_of_push hframes] at h
        cases h
        refine ⟨⟨[.endBranch (walk.steps == 0)],
          { discarded := if walk.steps == 0 then 1 else 0 }⟩, ?_, ?_⟩
        · refine ⟨rfl, rfl, rfl, rfl, ?_⟩
          simp [CurveEvent.discards, List.countP_cons]
        · intro τ builder' drawing summary index'
          have hframes' : (walk.redrawn drawing summary).frames = outer.push frame := hframes
          rw [along_singleton, step_pop, pop_of_push hframes']
          by_cases hsteps : walk.steps = 0
          · simp [redrawn, hsteps, WalkSummary.append, CurveBuilder.take]
          · simp [redrawn, hsteps, WalkSummary.append, CurveBuilder.take]
  | assign | finish =>
      cases h
      refine ⟨{}, ⟨rfl, rfl, rfl, rfl, rfl⟩, ?_⟩
      intro τ builder' drawing summary index'
      rw [along_singleton, WalkSummary.append_empty]
      rfl

/-- A row of tokens tells and adds the same from the same place. The induction is on the tokens,
and each stretch goes on from where the one before it led. -/
theorem exists_stretch_of_along {word : Word} {index : Nat} {walk last : Walk σ}
    (h : walk.along settings builder index word = .ok last) :
    ∃ stretch : Stretch, stretch.Covers settings.move word ∧
      Leads settings word walk last stretch := by
  induction word generalizing index walk with
  | nil =>
      cases h
      exact ⟨{}, .nil _, leads_nil last⟩
  | cons t rest ih =>
      rw [along_cons] at h
      obtain ⟨next, hstep, hrest⟩ := bind_eq_ok_iff.1 h
      obtain ⟨first, hfirst, hleads⟩ := exists_stretch_of_step hstep
      obtain ⟨second, hsecond, honward⟩ := ih hrest
      exact ⟨first.append second, hfirst.append hsecond, hleads.append honward⟩

end Walk

end Lindenmayer
