import Lindenmayer.Proofs.Turtle.Brackets

/-!
# What a word means to a turtle

A word with matching brackets is read by its structure, without a stack and without a
builder. A reading starts from a `Stance`: where the turtle stands, and what is left of its
offsets. From there an outline says

* where it leads (`Outline.leave`): a group leads back to where it began, and only the offsets
  it took are gone;
* the steps on the active path (`Outline.strides`), which are those outside all groups;
* the paths of its groups (`Outline.paths`): a group without a step of its own has none,
  whatever stands in the groups inside it;
* what the builder is told (`Outline.events`);
* what the walk amounts to (`Outline.summarize`).

Where its groups are not nested too deep, a walk is that reading (`Walk.along_outline`,
`walkAlong_outline`).
-/

namespace Lindenmayer

/-- Where a turtle stands, and what is left of its offsets. -/
structure Stance where
  pose : Pose
  jitter : RandomStream

/-- A step: the point it leads to, and the way there. -/
structure Stride where
  point : Vector3
  displacement : Vector3

/-- A path: the point it begins in, and the steps along it. -/
structure Path where
  anchor : Vector3
  strides : List Stride

/-- The points of a path, in order. -/
def Path.points (path : Path) : List Vector3 := path.anchor :: path.strides.map Stride.point

/-- Number of steps along paths. -/
def Path.steps : List Path → Nat
  | [] => 0
  | path :: rest => path.strides.length + steps rest

theorem Path.steps_append (first second : List Path) :
    steps (first ++ second) = steps first + steps second := by
  induction first with
  | nil => exact (Nat.zero_add _).symm
  | cons path rest ih =>
      rw [List.cons_append, steps, steps, ih, Nat.add_assoc]

/-- What the builder is told of a step. -/
def Stride.event (stride : Stride) : CurveEvent :=
  .extendPath stride.point (stride.point - stride.displacement)
    (stride.point + stride.displacement)

namespace Stance

/-- The stance before the first token. -/
def start (settings : TurtleSettings) : Stance :=
  ⟨.facing settings.origin settings.heading, .ofSeed settings.jitterSeed⟩

/-- The stance after a token that is no bracket. -/
def take (settings : TurtleSettings) (stance : Stance) : Token → Stance
  | .symbol letter =>
      if letter = settings.move then { stance with pose := stance.pose.advance settings.step }
      else stance
  | .direction turn =>
      let (offset, jitter) := Walk.offset settings stance.jitter
      let angle := turn.sign * (settings.angles.about turn.axis + offset)
      ⟨stance.pose.rotate turn.axis angle, jitter⟩
  | .push | .pop | .assign | .finish => stance

/-- The step from a stance. -/
def stride (settings : TurtleSettings) (stance : Stance) : Stride :=
  ⟨(stance.pose.advance settings.step).position, stance.pose.displacement settings.step⟩

end Stance

/-- The token turns the turtle. -/
def Token.isDirection : Token → Bool
  | .direction _ => true
  | .symbol _ | .push | .pop | .assign | .finish => false

/-- What a walk amounts to after a token that is no bracket. -/
def WalkSummary.take (move : Char) (summary : WalkSummary) : Token → WalkSummary
  | .symbol letter =>
      if letter = move then { summary with forwardMoves := summary.forwardMoves + 1 }
      else summary
  | .direction _ => { summary with rotations := summary.rotations + 1 }
  | .push | .pop | .assign | .finish => summary

theorem WalkSummary.take_eq (move : Char) (summary : WalkSummary) (t : Token) :
    summary.take move t =
      { summary with
        forwardMoves := summary.forwardMoves + [t].count (.symbol move)
        rotations := summary.rotations + [t].countP Token.isDirection } := by
  cases t with
  | symbol letter =>
      by_cases hmove : letter = move
      · simp [take, Token.isDirection, hmove]
      · simp [take, Token.isDirection, hmove]
  | direction turn => simp [take, Token.isDirection]
  | push | pop | assign | finish => simp [take, Token.isDirection]

namespace Outline

/-- Number of steps outside all groups. -/
def moves (move : Char) : Outline → Nat
  | empty => 0
  | plain t _ rest => (if t = .symbol move then 1 else 0) + rest.moves move
  | group _ rest => rest.moves move

/-- Number of groups without a step of their own. -/
def barren (move : Char) : Outline → Nat
  | empty => 0
  | plain _ _ rest => rest.barren move
  | group inner rest =>
      (if inner.moves move = 0 then 1 else 0) + inner.barren move + rest.barren move

section

variable (settings : TurtleSettings)

/-- Where the turtle stands after the word of an outline. -/
def leave : Outline → Stance → Stance
  | empty, stance => stance
  | plain t _ rest, stance => rest.leave (stance.take settings t)
  | group inner rest, stance => rest.leave ⟨stance.pose, (inner.leave stance).jitter⟩

/-- The steps outside all groups, in order. -/
def strides : Outline → Stance → List Stride
  | empty, _ => []
  | plain t _ rest, stance =>
      if t = .symbol settings.move then
        stance.stride settings :: rest.strides (stance.take settings t)
      else rest.strides (stance.take settings t)
  | group inner rest, stance => rest.strides ⟨stance.pose, (inner.leave settings stance).jitter⟩

/-- The paths of the groups that have a step of their own, in the order in which the groups
are opened. -/
def paths : Outline → Stance → List Path
  | empty, _ => []
  | plain t _ rest, stance => rest.paths (stance.take settings t)
  | group inner rest, stance =>
      (if inner.moves settings.move = 0 then []
        else [⟨stance.pose.position, inner.strides settings stance⟩]) ++
      inner.paths stance ++ rest.paths ⟨stance.pose, (inner.leave settings stance).jitter⟩

/-- What the builder is told, in order. -/
def events : Outline → Stance → List CurveEvent
  | empty, _ => []
  | plain t _ rest, stance =>
      if t = .symbol settings.move then
        (stance.stride settings).event :: rest.events (stance.take settings t)
      else rest.events (stance.take settings t)
  | group inner rest, stance =>
      .branch stance.pose.position :: inner.events stance ++
        .endBranch (inner.moves settings.move == 0) ::
          rest.events ⟨stance.pose, (inner.leave settings stance).jitter⟩

end

/-- What a walk amounts to after an outline, `opened` branches being open around it. -/
def summarize (move : Char) : Outline → (opened : Nat) → WalkSummary → WalkSummary
  | empty, _, summary => summary
  | plain t _ rest, opened, summary => rest.summarize move opened (summary.take move t)
  | group inner rest, opened, summary =>
      let inside := inner.summarize move (opened + 1)
        { summary with
          branches := summary.branches + 1
          maxDepth := max summary.maxDepth (opened + 1) }
      rest.summarize move opened
        (if inner.moves move == 0 then { inside with discarded := inside.discarded + 1 }
        else inside)

theorem length_strides (settings : TurtleSettings) (outline : Outline) (stance : Stance) :
    (outline.strides settings stance).length = outline.moves settings.move := by
  induction outline generalizing stance with
  | empty => rfl
  | plain t unbracketed rest ih =>
      unfold strides moves
      split
      · rw [List.length_cons, ih, Nat.add_comm]
      · rw [ih, Nat.zero_add]
  | group inner rest _ ihRest => exact ihRest _

/-! ## Counts of a reading -/

/-- What a walk amounts to, in counts of tokens and groups. -/
theorem summarize_eq (move : Char) (outline : Outline) {opened : Nat} {summary : WalkSummary}
    (hopened : opened ≤ summary.maxDepth) :
    outline.summarize move opened summary =
      { forwardMoves := summary.forwardMoves + outline.word.count (.symbol move)
        rotations := summary.rotations + outline.word.countP Token.isDirection
        branches := summary.branches + outline.word.count .push
        discarded := summary.discarded + outline.barren move
        maxDepth := max summary.maxDepth (opened + outline.depth)
        finish := summary.finish } := by
  induction outline generalizing opened summary with
  | empty => simp [summarize, word, barren, depth, Nat.max_eq_left hopened]
  | plain t unbracketed rest ih =>
      have hword : (plain t unbracketed rest).word = [t] ++ rest.word := rfl
      have hpush : [t].count .push = 0 := by cases t <;> first | rfl | cases unbracketed
      rw [summarize, WalkSummary.take_eq]
      refine (ih (by exact hopened)).trans ?_
      rw [hword, List.count_append, List.count_append, List.countP_append, hpush]
      simp [Nat.add_assoc, barren, depth]
  | group inner rest ihInner ihRest =>
      rw [summarize, ihInner (Nat.le_max_right ..)]
      have hinside : opened ≤
          max (max summary.maxDepth (opened + 1)) (opened + 1 + inner.depth) := by omega
      by_cases hmoves : inner.moves move = 0
      · simp only [hmoves, beq_self_eq_true, ↓reduceIte]
        rw [ihRest hinside]
        simp [word, barren, depth, Token.isDirection, hmoves]
        omega
      · rw [if_neg (by simpa using hmoves), ihRest hinside]
        simp [word, barren, depth, Token.isDirection, hmoves]
        omega

/-- Each group has a path or is without a step of its own. -/
theorem length_paths (settings : TurtleSettings) (outline : Outline) (stance : Stance) :
    (outline.paths settings stance).length + outline.barren settings.move =
      outline.word.count .push := by
  induction outline generalizing stance with
  | empty => rfl
  | plain t unbracketed rest ih =>
      have hne : t ≠ .push := by
        intro hpush
        subst hpush
        cases unbracketed
      rw [paths, barren, word, List.count_cons_of_ne hne]
      exact ih _
  | group inner rest ihInner ihRest =>
      have hinner := ihInner stance
      have hrest := ihRest ⟨stance.pose, (inner.leave settings stance).jitter⟩
      rw [paths, barren, word]
      by_cases hmoves : inner.moves settings.move = 0
      · simp [hmoves]
        omega
      · simp [hmoves]
        omega

/-- Each step is on the active path or on that of a group. -/
theorem length_strides_add_steps (settings : TurtleSettings) (outline : Outline)
    (stance : Stance) :
    (outline.strides settings stance).length + Path.steps (outline.paths settings stance) =
      outline.word.count (.symbol settings.move) := by
  induction outline generalizing stance with
  | empty => rfl
  | plain t unbracketed rest ih =>
      have hrest := ih (stance.take settings t)
      rw [strides, paths, word]
      by_cases hmove : t = .symbol settings.move
      · subst hmove
        simp
        omega
      · rw [if_neg hmove, List.count_cons_of_ne hmove]
        exact hrest
  | group inner rest ihInner ihRest =>
      have hinner := ihInner stance
      have hrest := ihRest ⟨stance.pose, (inner.leave settings stance).jitter⟩
      rw [strides, paths, word, Path.steps_append, Path.steps_append]
      by_cases hmoves : inner.moves settings.move = 0
      · -- the path that is left out has no steps
        rw [length_strides, hmoves] at hinner
        simp [hmoves, Path.steps]
        omega
      · simp [hmoves, Path.steps]
        omega

end Outline

namespace Walk

variable {σ : Type} (settings : TurtleSettings) (builder : CurveBuilder σ)

/-- Where the turtle stands in a walk. -/
def stance (walk : Walk σ) : Stance := ⟨walk.pose, walk.jitter⟩

/-- The walk after the word of an outline. -/
def after (outline : Outline) (walk : Walk σ) : Walk σ where
  drawing := builder.replay (outline.events settings walk.stance) walk.drawing
  pose := (outline.leave settings walk.stance).pose
  steps := walk.steps + outline.moves settings.move
  frames := walk.frames
  jitter := (outline.leave settings walk.stance).jitter
  summary := outline.summarize settings.move walk.frames.size walk.summary

variable {settings builder}

/-- A token that is no bracket is taken as the reading says. -/
theorem step_plain (index : Nat) {t : Token} (unbracketed : t.isBracket = false)
    (walk : Walk σ) :
    walk.step settings builder index t =
      .ok (walk.after settings builder (.plain t unbracketed .empty)) := by
  cases t with
  | symbol letter =>
      unfold step
      dsimp only
      by_cases hmove : letter = settings.move
      · subst hmove
        simp [after, stance, Outline.events, Outline.leave, Outline.moves, Outline.summarize,
          Stance.take, WalkSummary.take]
        rfl
      · simp [after, stance, Outline.events, Outline.leave, Outline.moves, Outline.summarize,
          Stance.take, WalkSummary.take, hmove]
  | direction | assign | finish => rfl
  | push | pop => cases unbracketed

/-- The reading of a token and of what follows it. -/
theorem after_plain (t : Token) (unbracketed : t.isBracket = false) (rest : Outline)
    (walk : Walk σ) :
    (walk.after settings builder (.plain t unbracketed .empty)).after settings builder rest =
      walk.after settings builder (.plain t unbracketed rest) := by
  by_cases hmove : t = .symbol settings.move
  · simp [after, stance, Outline.events, Outline.leave, Outline.moves, Outline.summarize, hmove,
      Nat.add_assoc]
  · simp [after, stance, Outline.events, Outline.leave, Outline.moves, Outline.summarize, hmove]

/-- A walk along the word of an outline is what the outline says. -/
theorem along_outline (outline : Outline) (index : Nat) (walk : Walk σ)
    (hfits : walk.frames.size + outline.depth ≤ Limits.branchStack) :
    walk.along settings builder index outline.word = .ok (walk.after settings builder outline) := by
  induction outline generalizing index walk with
  | empty => rfl
  | plain t unbracketed rest ih =>
      have hrest := ih (index + 1) (walk.after settings builder (.plain t unbracketed .empty))
        hfits
      rw [after_plain] at hrest
      rw [Outline.word, along_cons, step_plain index unbracketed, ok_bind, hrest]
  | group inner rest ihInner ihRest =>
      rw [Outline.depth] at hfits
      -- the frames inside the group are those around it and one more
      have hroom : walk.frames.size < Limits.branchStack := by omega
      rw [Outline.word, List.cons_append, along_cons, step_push, push_of_lt hroom, ok_bind,
        along_append, ihInner, ok_bind, along_cons, step_pop]
      · -- the frame on top is the one that was pushed, so the turtle goes back to this pose
        rw [pop_of_push rfl, ok_bind, ihRest]
        · congr 1
          simp [after, stance, Outline.events, Outline.leave, Outline.moves, Outline.summarize,
            CurveBuilder.take]
        · show walk.frames.size + rest.depth ≤ _
          omega
      · show (walk.frames.push _).size + _ ≤ _
        rw [Array.size_push]
        omega

end Walk

variable {σ : Type} (settings : TurtleSettings) (builder : CurveBuilder σ)

/-- A walk along the word of an outline that is not too deep comes to its end. -/
theorem walkAlong_outline (outline : Outline) (hdepth : outline.depth ≤ Limits.branchStack)
    (drawing : σ) :
    walkAlong settings builder drawing outline.word = .ok
      (builder.replay (outline.events settings (.start settings))
          (builder.startPath settings.origin drawing),
        { forwardMoves := outline.word.count (.symbol settings.move)
          rotations := outline.word.countP Token.isDirection
          branches := outline.word.count .push
          discarded := outline.barren settings.move
          maxDepth := outline.depth
          finish := (outline.leave settings (.start settings)).pose.position }) := by
  have hfits : (Walk.start settings builder drawing).frames.size + outline.depth ≤
      Limits.branchStack := by
    show 0 + outline.depth ≤ _
    omega
  have hcounts := Outline.summarize_eq settings.move outline
    (Nat.le_refl (WalkSummary.maxDepth {}))
  unfold walkAlong
  rw [Walk.along_outline outline 0 _ hfits, ok_bind, Walk.close_of_empty rfl]
  simp only [Walk.after, Walk.start, Walk.stance, Array.size_empty, hcounts, Nat.zero_add,
    Nat.zero_max]
  rfl

variable {settings builder}

/-- A walk comes to its end along the words of such outlines only. -/
theorem exists_outline_of_walkAlong {word : Word} {drawing : σ} {result : σ × WalkSummary}
    (h : walkAlong settings builder drawing word = .ok result) :
    ∃ outline : Outline, outline.word = word ∧ outline.depth ≤ Limits.branchStack := by
  have hexplains := word.explains_walkAlong settings builder drawing
  rw [h] at hexplains
  obtain ⟨hunmatched, hpeak⟩ := hexplains
  obtain ⟨outline, rfl⟩ := word.wellNested_iff.2 hunmatched
  rw [Word.peak, outline.peak_word, Nat.zero_add] at hpeak
  exact ⟨outline, rfl, hpeak⟩

end Lindenmayer
