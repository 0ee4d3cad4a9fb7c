import Lindenmayer.Curve.Skeleton
import Lindenmayer.Proofs.Turtle.Telling

/-!
# A walk and its record

A turtle tells its builder where it goes and never asks it anything. What takes one builder's
states to another's, event by event (`CurveBuilder.Carries`), therefore takes the walks of the
one to the walks of the other:

* token by token (`Walk.step_carried`), along rows of tokens (`Walk.along_carried`) and over the
  end of a word (`Walk.close_carried`), failures included;
* to tell a builder what was recorded is such a map (`CurveBuilder.carries_replay`), so every
  builder draws what the record says (`walkAlong_replay`).
-/

namespace Lindenmayer

variable {σ τ : Type}

/-- States of the first builder go to states of the second, and go on as the events do. -/
structure CurveBuilder.Carries (first : CurveBuilder σ) (second : CurveBuilder τ) (f : σ → τ) :
    Prop where
  take : ∀ event state, f (first.take event state) = second.take event (f state)

/-- What was recorded can be told to any builder, however much that is. -/
theorem CurveBuilder.carries_replay (builder : CurveBuilder σ) (drawing : σ) :
    recorder.Carries builder fun events => builder.replay events.toList drawing where
  take := by
    intro event events
    rw [take_recorder, Array.toList_push, replay_append]
    rfl

namespace Walk

/-- The same walk with the state of another builder. -/
def carried (f : σ → τ) (walk : Walk σ) : Walk τ := walk.redrawn (f walk.drawing) walk.summary

variable {settings : TurtleSettings} {first : CurveBuilder σ} {second : CurveBuilder τ}
  {f : σ → τ}

theorem start_carried (h : first.Carries second f) (drawing : σ) :
    (start settings first drawing).carried f = start settings second (f drawing) := by
  have hstart := h.take (.startPath settings.origin) drawing
  show redrawn _ (f (first.take (.startPath settings.origin) drawing)) _ = _
  rw [hstart]
  rfl

theorem forward_carried (h : first.Carries second f) (walk : Walk σ) :
    (walk.carried f).forward settings second = (walk.forward settings first).carried f := by
  have hextend := h.take (walk.stance.stride settings).event walk.drawing
  show _ = redrawn _ (f (first.take (walk.stance.stride settings).event walk.drawing)) _
  rw [hextend]
  rfl

theorem push_carried (h : first.Carries second f) (index : Nat) (walk : Walk σ) :
    (walk.carried f).push second index = (walk.push first index).map (carried f) := by
  by_cases hroom : walk.frames.size < Limits.branchStack
  · have hroom' : (walk.carried f).frames.size < Limits.branchStack := hroom
    have hbranch := h.take (.branch walk.pose.position) walk.drawing
    rw [push_of_lt hroom, push_of_lt hroom']
    show _ = Except.ok (redrawn _ (f (first.take (.branch walk.pose.position) walk.drawing)) _)
    rw [hbranch]
    rfl
  · have hfull : ¬ (walk.carried f).frames.size < Limits.branchStack := hroom
    rw [push_of_full hroom, push_of_full hfull]
    rfl

theorem pop_carried (h : first.Carries second f) (index : Nat) (walk : Walk σ) :
    (walk.carried f).pop second index = (walk.pop first index).map (carried f) := by
  rcases hsize : walk.frames.size with _ | n
  · have hempty : walk.frames = #[] := Array.eq_empty_of_size_eq_zero hsize
    have hempty' : (walk.carried f).frames = #[] := hempty
    rw [pop_of_empty hempty, pop_of_empty hempty']
    rfl
  · obtain ⟨outer, frame, hframes⟩ := Array.exists_push_of_size_eq_add_one hsize
    have hframes' : (walk.carried f).frames = outer.push frame := hframes
    have hend := h.take (.endBranch (walk.steps == 0)) walk.drawing
    rw [pop_of_push hframes, pop_of_push hframes']
    show _ = Except.ok
      (redrawn _ (f (first.take (.endBranch (walk.steps == 0)) walk.drawing)) _)
    rw [hend]
    rfl

/-- A token does the same to both walks, or stops both. -/
theorem step_carried (h : first.Carries second f) (index : Nat) (t : Token) (walk : Walk σ) :
    (walk.carried f).step settings second index t =
      (walk.step settings first index t).map (carried f) := by
  cases t with
  | symbol letter =>
      by_cases hmove : letter = settings.move
      · simp only [step, hmove, if_true, forward_carried h]
        rfl
      · simp only [step, hmove, if_false]
        rfl
  | direction turn => rfl
  | push => exact push_carried h index walk
  | pop => exact pop_carried h index walk
  | assign | finish => rfl

/-- A row of tokens does the same to both walks, or stops both at the same place. -/
theorem along_carried (h : first.Carries second f) (word : Word) (index : Nat)
    (walk : Walk σ) :
    (walk.carried f).along settings second index word =
      (walk.along settings first index word).map (carried f) := by
  induction word generalizing index walk with
  | nil => rfl
  | cons t rest ih =>
      rw [along_cons, along_cons, step_carried h]
      cases walk.step settings first index t with
      | error error => rfl
      | ok next => exact ih (index + 1) next

theorem close_carried (f : σ → τ) (walk : Walk σ) :
    (walk.carried f).close =
      walk.close.map fun (drawing, summary) => (f drawing, summary) := by
  by_cases hempty : walk.frames = #[]
  · have hempty' : (walk.carried f).frames = #[] := hempty
    rw [close_of_empty hempty, close_of_empty hempty']
    rfl
  · have hopen : ¬ (walk.carried f).frames = #[] := hempty
    rw [close_of_ne hempty, close_of_ne hopen]
    rfl

end Walk

/-- A walk with the second builder is the walk with the first, its drawing carried over. -/
theorem walkAlong_carried {first : CurveBuilder σ} {second : CurveBuilder τ} {f : σ → τ}
    (h : first.Carries second f) (settings : TurtleSettings) (drawing : σ) (word : Word) :
    walkAlong settings second (f drawing) word =
      (walkAlong settings first drawing word).map fun (drawing, summary) =>
        (f drawing, summary) := by
  unfold walkAlong
  rw [← Walk.start_carried h, Walk.along_carried h]
  cases (Walk.start settings first drawing).along settings first 0 word with
  | error error => rfl
  | ok last => exact Walk.close_carried f last

/-- Told what the recorder of a walk keeps, a builder comes to what it would have come to in a
walk of its own. -/
theorem walkAlong_of_recorder (settings : TurtleSettings) (builder : CurveBuilder σ)
    (drawing : σ) (word : Word) :
    walkAlong settings builder drawing word =
      (walkAlong settings .recorder #[] word).map fun (events, summary) =>
        (builder.replay events.toList drawing, summary) :=
  walkAlong_carried (builder.carries_replay drawing) settings #[] word

/-- All builders see one walk. It comes to an end with all of them or with none, with the same
summary or the same error, and the drawing is the initial one after the events that the recorder
keeps. Two builders side by side each draw what they would draw alone. So a skeleton is the same
made directly, made from the record, and made beside a recorder. -/
theorem walkAlong_replay (settings : TurtleSettings) (word : Word) :
    (∀ {σ : Type} (builder : CurveBuilder σ) (drawing : σ),
      walkAlong settings builder drawing word =
        (walkAlong settings .recorder #[] word).map fun (events, summary) =>
          (builder.replay events.toList drawing, summary)) ∧
    (∀ {σ τ : Type} (first : CurveBuilder σ) (second : CurveBuilder τ) (s : σ) (t : τ),
      walkAlong settings (first.tee second) (s, t) word =
        (walkAlong settings .recorder #[] word).map fun (events, summary) =>
          ((first.replay events.toList s, second.replay events.toList t), summary)) ∧
    ∀ bevel : Bevel,
      (walkAlong settings SkeletonState.builder {} word).map
          (fun (state, summary) => (state.skeleton bevel, summary)) =
        (walkAlong settings .recorder #[] word).map
          (fun (events, summary) =>
            ((SkeletonState.builder.replay events.toList {}).skeleton bevel, summary)) ∧
      (walkAlong settings (SkeletonState.builder.tee .recorder) ({}, #[]) word).map
          (fun ((state, events), summary) => (state.skeleton bevel, events, summary)) =
        (walkAlong settings .recorder #[] word).map
          (fun (events, summary) =>
            ((SkeletonState.builder.replay events.toList {}).skeleton bevel, events,
              summary)) := by
  refine ⟨fun builder drawing => walkAlong_of_recorder settings builder drawing word, ?_, ?_⟩
  · intro σ τ first second s t
    rw [walkAlong_of_recorder]
    simp only [CurveBuilder.replay_tee]
  · intro bevel
    rw [walkAlong_of_recorder settings SkeletonState.builder, walkAlong_of_recorder settings
      (SkeletonState.builder.tee .recorder)]
    cases walkAlong settings .recorder #[] word with
    | error error => exact ⟨rfl, rfl⟩
    | ok result =>
        refine ⟨rfl, ?_⟩
        simp [Except.map]

end Lindenmayer
