import Lindenmayer.Proofs.Turtle.Reading
import Lindenmayer.Proofs.Turtle.Stepping

/-!
# Offsets along a walk

A closing bracket takes the turtle back to where the branch began, but not the stream of offsets.

* The stream has been drawn from as often as the turtle has turned, in branches or not
  (`Walk.jitter_of_along`).
* The poses that a walk can go back to are a stack, on which a closing bracket uncovers the one
  below (`Walk.poses`).
* So the turtle stands where the tokens lead that are in no closed branch, each turn with the offset
  that it took when it was made (`Walk.exists_pose_of_along`).
-/

namespace Lindenmayer

/-- The stream after a number of samples from `[-bound, bound]`. -/
def RandomStream.afterSamples (bound : Float) (stream : RandomStream) : Nat → RandomStream
  | 0 => stream
  | n + 1 => ((stream.afterSamples bound n).symmetric bound).2

/-- The sample from `[-bound, bound]` that has the given number of samples before it. -/
def RandomStream.sample (bound : Float) (stream : RandomStream) (n : Nat) : Float :=
  ((stream.afterSamples bound n).symmetric bound).1

namespace TurtleSettings

/-- The stream of offsets after a number of turns. -/
def jitterAfter (settings : TurtleSettings) (turns : Nat) : RandomStream :=
  if settings.jitterBound > 0.0 then
    (RandomStream.ofSeed settings.jitterSeed).afterSamples settings.jitterBound turns
  else .ofSeed settings.jitterSeed

/-- The offset of the turn that has the given number of turns before it. -/
def offsetAfter (settings : TurtleSettings) (turns : Nat) : Float :=
  if settings.jitterBound > 0.0 then
    (RandomStream.ofSeed settings.jitterSeed).sample settings.jitterBound turns
  else 0.0

theorem offset_jitterAfter (settings : TurtleSettings) (turns : Nat) :
    Walk.offset settings (settings.jitterAfter turns) =
      (settings.offsetAfter turns, settings.jitterAfter (turns + 1)) := by
  unfold Walk.offset jitterAfter offsetAfter
  by_cases hbound : settings.jitterBound > 0.0
  · simp only [if_pos hbound, RandomStream.sample, RandomStream.afterSamples]
  · simp only [if_neg hbound]

end TurtleSettings

/-- The pose after a token that has the given number of turns before it. -/
def Pose.take (settings : TurtleSettings) (pose : Pose) : Token × Nat → Pose
  | (.symbol letter, _) =>
      if letter = settings.move then pose.advance settings.step else pose
  | (.direction turn, turns) =>
      pose.rotate turn.axis
        (turn.sign * (settings.angles.about turn.axis + settings.offsetAfter turns))
  | (.push, _) | (.pop, _) | (.assign, _) | (.finish, _) => pose

/-- A token leads where it leads from the number of turns before it. -/
theorem Stance.take_eq {settings : TurtleSettings} (stance : Stance) {turns : Nat}
    (hjitter : stance.jitter = settings.jitterAfter turns) (t : Token) :
    stance.take settings t =
      ⟨stance.pose.take settings (t, turns),
        settings.jitterAfter (turns + [t].countP Token.isDirection)⟩ := by
  obtain ⟨pose, jitter⟩ := stance
  obtain rfl : jitter = settings.jitterAfter turns := hjitter
  cases t with
  | symbol letter =>
      by_cases hmove : letter = settings.move
      · simp only [Stance.take, Pose.take, if_pos hmove]
        rfl
      · simp only [Stance.take, Pose.take, if_neg hmove]
        rfl
  | direction turn =>
      simp only [Stance.take, Pose.take, TurtleSettings.offset_jitterAfter]
      rfl
  | push | pop | assign | finish => rfl

/-- The tokens of a word that no closing bracket behind them takes back, each with the number of
turns before it. -/
def Word.standing : (turns : Nat) → Word → List (Token × Nat)
  | _, [] => []
  | turns, t :: rest =>
      let behind := standing (turns + [t].countP Token.isDirection) rest
      if (Word.unmatched rest).closing = 0 then (t, turns) :: behind else behind

theorem Word.standing_cons (turns : Nat) (t : Token) (rest : Word) :
    standing turns (t :: rest) =
      if (unmatched rest).closing = 0 then
        (t, turns) :: standing (turns + [t].countP Token.isDirection) rest
      else standing (turns + [t].countP Token.isDirection) rest := rfl

namespace Walk

variable {σ : Type} {settings : TurtleSettings} {builder : CurveBuilder σ}

/-- The poses that closing brackets lead back to, behind the one that the turtle is in. -/
def poses (walk : Walk σ) : List Pose :=
  walk.pose :: walk.frames.toList.reverse.map Frame.pose

/-! ## One token -/

theorem push_poses {walk next : Walk σ} {index : Nat} (h : walk.push builder index = .ok next) :
    next.poses = walk.pose :: walk.poses ∧ next.jitter = walk.jitter := by
  by_cases hroom : walk.frames.size < Limits.branchStack
  · rw [push_of_lt hroom] at h
    cases h
    simp [poses]
  · rw [push_of_full hroom] at h
    cases h

theorem pop_poses {walk next : Walk σ} {index : Nat} (h : walk.pop builder index = .ok next) :
    walk.poses = walk.pose :: next.poses ∧ next.jitter = walk.jitter := by
  by_cases hempty : walk.frames = #[]
  · rw [pop_of_empty hempty] at h
    cases h
  · obtain ⟨outer, frame, hframes⟩ := Array.exists_push_of_ne_empty hempty
    rw [pop_of_push hframes] at h
    cases h
    simp [poses, hframes]

/-- A token that is no bracket changes the pose alone, and takes an offset if it is a turn. -/
theorem plain_poses {walk next : Walk σ} {t : Token} (unbracketed : t.isBracket = false)
    {turns : Nat} (hjitter : walk.jitter = settings.jitterAfter turns) {index : Nat}
    (h : walk.step settings builder index t = .ok next) :
    next.poses = walk.pose.take settings (t, turns) :: walk.poses.tail ∧
      next.jitter = settings.jitterAfter (turns + [t].countP Token.isDirection) := by
  rw [step_plain index unbracketed] at h
  cases h
  have htake := walk.stance.take_eq hjitter t
  exact ⟨congrArg (fun stance : Stance => stance.pose :: walk.poses.tail) htake,
    congrArg Stance.jitter htake⟩

theorem jitter_of_step {walk next : Walk σ} {t : Token} {turns : Nat}
    (hjitter : walk.jitter = settings.jitterAfter turns) {index : Nat}
    (h : walk.step settings builder index t = .ok next) :
    next.jitter = settings.jitterAfter (turns + [t].countP Token.isDirection) := by
  cases t with
  | push => exact (push_poses h).2.trans hjitter
  | pop => exact (pop_poses h).2.trans hjitter
  | symbol | direction | assign | finish => exact (plain_poses rfl hjitter h).2

/-! ## All tokens -/

/-- The stream is drawn from as often as the turtle turns. -/
theorem jitter_of_along {word : Word} {turns : Nat} {walk last : Walk σ} {index : Nat}
    (hjitter : walk.jitter = settings.jitterAfter turns)
    (h : walk.along settings builder index word = .ok last) :
    last.jitter = settings.jitterAfter (turns + word.countP Token.isDirection) := by
  induction word generalizing turns walk index with
  | nil =>
      cases h
      exact hjitter
  | cons t rest ih =>
      rw [along_cons] at h
      obtain ⟨next, hstep, hrest⟩ := bind_eq_ok_iff.1 h
      have hcount : (t :: rest).countP Token.isDirection =
          [t].countP Token.isDirection + rest.countP Token.isDirection := by
        rw [← List.countP_append, List.singleton_append]
      rw [hcount, ← Nat.add_assoc]
      exact ih (jitter_of_step hjitter hstep) hrest

/-- The turtle is where the tokens lead that are not taken back, from the pose that the closing
brackets lead back to. -/
theorem exists_pose_of_along {word : Word} {turns : Nat} {walk last : Walk σ} {index : Nat}
    (hjitter : walk.jitter = settings.jitterAfter turns)
    (h : walk.along settings builder index word = .ok last) :
    ∃ base, walk.poses[word.unmatched.closing]? = some base ∧
      last.pose = (word.standing turns).foldl (Pose.take settings) base := by
  induction word generalizing turns walk index with
  | nil =>
      cases h
      exact ⟨_, rfl, rfl⟩
  | cons t rest ih =>
      rw [along_cons] at h
      obtain ⟨next, hstep, hrest⟩ := bind_eq_ok_iff.1 h
      obtain ⟨base, hbase, hpose⟩ := ih (jitter_of_step hjitter hstep) hrest
      rw [Word.standing_cons]
      cases t with
      | push =>
          -- the first bracket that is left over leads back to here
          rw [(push_poses hstep).1] at hbase
          rw [Word.closing_cons_push]
          cases hclosing : (Word.unmatched rest).closing with
          | zero =>
              rw [hclosing] at hbase
              obtain rfl := Option.some.inj hbase
              exact ⟨walk.pose, rfl, hpose⟩
          | succ closing =>
              rw [hclosing] at hbase
              exact ⟨base, hbase, hpose⟩
      | pop =>
          rw [(pop_poses hstep).1, Word.closing_cons_pop]
          refine ⟨base, hbase, ?_⟩
          split
          · exact hpose
          · exact hpose
      | symbol | direction | assign | finish =>
          rw [(plain_poses rfl hjitter hstep).1] at hbase
          rw [Word.unmatched_cons_plain rfl]
          cases hclosing : (Word.unmatched rest).closing with
          | zero =>
              rw [hclosing] at hbase
              obtain rfl := Option.some.inj hbase
              exact ⟨walk.pose, rfl, hpose⟩
          | succ closing =>
              rw [hclosing] at hbase
              exact ⟨base, hbase, hpose⟩

theorem jitter_start (settings : TurtleSettings) (builder : CurveBuilder σ) (drawing : σ) :
    (start settings builder drawing).jitter = settings.jitterAfter 0 := by
  unfold TurtleSettings.jitterAfter
  split <;> rfl

/-- A walk from the start has closed no more branches than it has opened, and the first pose is the
only one to go back to. -/
theorem pose_of_along {drawing : σ} {word : Word} {walk : Walk σ}
    (h : (start settings builder drawing).along settings builder 0 word = .ok walk) :
    word.unmatched.closing = 0 ∧
      walk.pose = (word.standing 0).foldl (Pose.take settings)
        (.facing settings.origin settings.heading) := by
  obtain ⟨base, hbase, hpose⟩ := exists_pose_of_along (jitter_start ..) h
  cases hclosing : word.unmatched.closing with
  | zero =>
      rw [hclosing] at hbase
      obtain rfl := Option.some.inj hbase
      exact ⟨rfl, hpose⟩
  | succ closing =>
      rw [hclosing] at hbase
      cases hbase

/-- Offsets are taken in the order of the turns and never again. Along any word that is walked
without an error, the stream is drawn from once for each turn, in branches that are closed as well,
and each turn is by its nominal angle and the sample that is its own. The turtle is where the tokens
lead that no closing bracket takes back, their turns by those same offsets; and those that are taken
back are the ones inside a closed branch. -/
theorem along_standing {drawing : σ} {word : Word} {walk : Walk σ}
    (h : (start settings builder drawing).along settings builder 0 word = .ok walk) :
    walk.jitter = settings.jitterAfter (word.countP Token.isDirection) ∧
    (∀ (u : Word) (turn : Direction) (v : Word), word = u ++ .direction turn :: v →
      ∃ before after : Walk σ,
        (start settings builder drawing).along settings builder 0 u = .ok before ∧
        before.step settings builder u.length (.direction turn) = .ok after ∧
        after.pose = before.pose.rotate turn.axis (turn.sign *
          (settings.angles.about turn.axis +
            settings.offsetAfter (u.countP Token.isDirection)))) ∧
    walk.pose = (word.standing 0).foldl (Pose.take settings)
      (.facing settings.origin settings.heading) ∧
    ∀ (u : Word) (t : Token) (v : Word), word = u ++ t :: v → t.isBracket = false →
      (v.unmatched.closing ≠ 0 ↔ Word.Encloses u v) := by
  obtain ⟨hclosing, hpose⟩ := pose_of_along h
  have hjitter := jitter_of_along (jitter_start ..) h
  rw [Nat.zero_add] at hjitter
  refine ⟨hjitter, ?_, hpose, ?_⟩
  · rintro u turn v rfl
    rw [along_append] at h
    obtain ⟨before, hbefore, hrest⟩ := bind_eq_ok_iff.1 h
    rw [along_cons, Nat.zero_add] at hrest
    obtain ⟨after, hafter, -⟩ := bind_eq_ok_iff.1 hrest
    have hturns := jitter_of_along (jitter_start ..) hbefore
    rw [Nat.zero_add] at hturns
    exact ⟨before, after, hbefore, hafter, (List.cons.inj (plain_poses rfl hturns hafter).1).1⟩
  · rintro u t v rfl unbracketed
    rw [Word.unmatched_append, List.foldl_cons, Unmatched.take_plain _ unbracketed,
      ← Word.unmatched_append] at hclosing
    exact (Word.encloses_iff hclosing).symm

/-- Behind `+[-F]+[F` the turtle has turned by the first sample and by the third; the second went to
a branch that is closed. -/
theorem along_standing_nested :
    let settings : TurtleSettings :=
      { step := 1.0, angles := .uniform 0.5, jitterFraction := 0.5, jitterSeed := 11 }
    let turn : Direction := ⟨.yaw, true⟩
    ∃ walk : Walk (Array CurveEvent),
      (start settings .recorder #[]).along settings .recorder 0
        [.direction turn, .push, .direction ⟨.yaw, false⟩, .symbol 'F', .pop, .direction turn,
          .push, .symbol 'F'] = .ok walk ∧
      settings.jitterBound > 0.0 ∧ walk.jitter = settings.jitterAfter 3 ∧
      walk.pose = ((((Pose.facing .zero .unitZ).rotate .yaw
        (turn.sign * (0.5 + settings.offsetAfter 0))).rotate .yaw
        (turn.sign * (0.5 + settings.offsetAfter 2))).advance 1.0) := by
  intro settings turn
  obtain ⟨walk, hwalk⟩ : ∃ walk : Walk (Array CurveEvent),
      (start settings .recorder #[]).along settings .recorder 0
        [.direction turn, .push, .direction ⟨.yaw, false⟩, .symbol 'F', .pop, .direction turn,
          .push, .symbol 'F'] = .ok walk := ⟨_, rfl⟩
  obtain ⟨hjitter, -, hpose, -⟩ := along_standing hwalk
  exact ⟨walk, hwalk, by decide +kernel, hjitter, hpose⟩

end Walk

end Lindenmayer
