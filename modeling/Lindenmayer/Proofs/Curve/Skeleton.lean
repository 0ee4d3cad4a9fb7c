import Lindenmayer.Curve.Skeleton
import Lindenmayer.Proofs.Turtle.Reading

/-!
# Skeletons of words

The skeleton of a word is its paths, the root path first (`skeleton_of_walkAlong`). The builder
knows open paths by their places among the splines. Everything behind the active path began
inside it and is closed, so what is taken out there moves no open path
(`SkeletonState.replay_events`).
-/

namespace Lindenmayer

/-- A spline with a step more. -/
def Stride.extend (spline : Spline) (stride : Stride) : Spline :=
  SkeletonState.extendSpline stride.point (stride.point - stride.displacement)
    (stride.point + stride.displacement) spline

/-- The spline of a path. -/
def Path.spline (path : Path) : Spline :=
  path.strides.foldl Stride.extend #[.anchor path.anchor]

theorem List.modify_length_append {α : Type} (f : α → α) (before behind : List α) (x : α) :
    (before ++ x :: behind).modify before.length f = before ++ f x :: behind := by
  induction before with
  | nil => rfl
  | cons head rest ih => exact congrArg (head :: ·) ih

namespace SkeletonState

/-- The active path among the splines before and behind it. -/
def amid (before : List Spline) (active : Spline) (behind : List Spline) (outer : List Nat) :
    SkeletonState :=
  ⟨(before ++ active :: behind).toArray, before.length :: outer⟩

variable (before behind : List Spline) (active : Spline) (outer : List Nat)

theorem take_event (stride : Stride) :
    builder.take stride.event (amid before active behind outer) =
      amid before (stride.extend active) behind outer := by
  simp [amid, builder, CurveBuilder.take, Stride.event, extend, Stride.extend,
    List.modify_length_append]

theorem take_branch (origin : Vector3) :
    builder.take (.branch origin) (amid before active behind outer) =
      amid (before ++ active :: behind) #[.anchor origin] [] (before.length :: outer) := by
  simp [amid, builder, CurveBuilder.take, openPath]

/-- Where a path is taken out, all that moves began inside it. -/
theorem take_endBranch (discard : Bool) (child : Spline) (inside : List Spline) :
    builder.take (.endBranch discard)
        (amid (before ++ active :: behind) child inside (before.length :: outer)) =
      amid before active (behind ++ (if discard then [] else [child]) ++ inside) outer := by
  cases discard
  · simp [amid, builder, CurveBuilder.take, close]
  · have herase : ((before ++ active :: behind) ++ child :: inside).eraseIdx
        (before ++ active :: behind).length = (before ++ active :: behind) ++ inside := by
      rw [List.eraseIdx_append_of_length_le (Nat.le_refl _), Nat.sub_self]
      rfl
    show SkeletonState.mk (Array.eraseIdxIfInBounds (List.toArray _) _) _ = _
    rw [List.eraseIdxIfInBounds_toArray, herase]
    simp [amid]

/-- What the builder is told of an outline lengthens the active path by the steps outside all
groups, and puts the paths of the groups behind all that is there. -/
theorem replay_events (settings : TurtleSettings) (outline : Outline) (stance : Stance)
    (before behind : List Spline) (active : Spline) (outer : List Nat) :
    builder.replay (outline.events settings stance) (amid before active behind outer) =
      amid before ((outline.strides settings stance).foldl Stride.extend active)
        (behind ++ (outline.paths settings stance).map Path.spline) outer := by
  induction outline generalizing stance before behind active outer with
  | empty => simp [Outline.events, Outline.strides, Outline.paths]
  | plain t unbracketed rest ih =>
      rw [Outline.events, Outline.strides, Outline.paths]
      split
      · rw [CurveBuilder.replay_cons, take_event, ih, List.foldl_cons]
      · exact ih ..
  | group inner rest ihInner ihRest =>
      -- the active path of the group stands behind all that is there when it begins
      rw [Outline.events, List.cons_append, CurveBuilder.replay_cons, take_branch,
        CurveBuilder.replay_append, ihInner, CurveBuilder.replay_cons, take_endBranch, ihRest,
        Outline.strides, Outline.paths]
      congr 1
      by_cases hmoves : inner.moves settings.move = 0
      · simp [hmoves]
      · simp [hmoves, Path.spline]

end SkeletonState

/-! ## Points and counts -/

/-- Points whose handles are moved stay where they are. -/
theorem CurvePoint.map_co_modify {f : CurvePoint → CurvePoint}
    (hf : ∀ point, (f point).co = point.co) (points : List CurvePoint) (place : Nat) :
    (points.modify place f).map co = points.map co := by
  induction points generalizing place with
  | nil => rw [List.modify_nil]
  | cons head rest ih =>
      cases place with
      | zero => simp [hf]
      | succ place => simp [ih]

/-- A step more is a point more. -/
theorem Stride.co_extend (spline : Spline) (stride : Stride) :
    (stride.extend spline).toList.map CurvePoint.co =
      spline.toList.map CurvePoint.co ++ [stride.point] := by
  unfold Stride.extend SkeletonState.extendSpline
  rw [Array.toList_push, Array.toList_modify, List.map_append, CurvePoint.map_co_modify]
  · rfl
  · intro point
    rfl

theorem Path.co_spline (path : Path) : path.spline.toList.map CurvePoint.co = path.points := by
  have hfold : ∀ (strides : List Stride) (spline : Spline),
      (strides.foldl Stride.extend spline).toList.map CurvePoint.co =
        spline.toList.map CurvePoint.co ++ strides.map Stride.point := by
    intro strides
    induction strides with
    | nil => simp
    | cons stride rest ih =>
        intro spline
        rw [List.foldl_cons, ih, Stride.co_extend, List.map_cons, List.append_assoc]
        rfl
  exact hfold path.strides _

theorem Path.size_spline (path : Path) : path.spline.size = 1 + path.strides.length := by
  have hlength := congrArg List.length path.co_spline
  simpa [Path.points, Nat.add_comm] using hlength

/-- A skeleton has a point for each path and one for each step. -/
theorem Skeleton.pointCount_of_paths {skeleton : Skeleton} {paths : List Path}
    (h : skeleton.splines.toList = paths.map Path.spline) :
    skeleton.pointCount = paths.length + Path.steps paths := by
  have hfold : ∀ count, paths.foldl (fun count path => count + path.spline.size) count =
      count + (paths.length + Path.steps paths) := by
    clear h
    induction paths with
    | nil => exact fun _ => rfl
    | cons path rest ih =>
        intro count
        rw [List.foldl_cons, ih, path.size_spline, List.length_cons, Path.steps]
        omega
  unfold pointCount
  rw [← Array.foldl_toList, h, List.foldl_map, hfold, Nat.zero_add]

/-- What a walk along the word of an outline leaves: the splines of its paths, and the counts
of its tokens and groups. -/
theorem walkAlong_skeleton {settings : TurtleSettings} {outline : Outline}
    {state : SkeletonState} {summary : WalkSummary}
    (h : walkAlong settings SkeletonState.builder {} outline.word = .ok (state, summary)) :
    state.splines.toList =
        (Path.mk settings.origin (outline.strides settings (.start settings)) ::
          outline.paths settings (.start settings)).map Path.spline ∧
      summary.forwardMoves = outline.word.count (.symbol settings.move) ∧
      summary.branches = outline.word.count .push ∧
      summary.discarded = outline.barren settings.move := by
  obtain ⟨whole, hword, hdepth⟩ := exists_outline_of_walkAlong h
  obtain rfl := Outline.word_injective hword
  have hstart : SkeletonState.builder.startPath settings.origin {} =
      SkeletonState.amid [] #[.anchor settings.origin] [] [] := rfl
  rw [walkAlong_outline _ _ whole hdepth, hstart, SkeletonState.replay_events] at h
  cases h
  simp [SkeletonState.amid, Path.spline]

/-- The skeleton of a word is the root path and, in the order in which they are opened, the
paths of the groups that have a step of their own; there is a point for each of these paths and
for each step. -/
theorem skeleton_of_walkAlong {settings : TurtleSettings} {word : Word} {state : SkeletonState}
    {summary : WalkSummary} (bevel : Bevel)
    (h : walkAlong settings SkeletonState.builder {} word = .ok (state, summary)) :
    ∃ outline : Outline, outline.word = word ∧
      ((state.skeleton bevel).splines.toList.map fun spline =>
          spline.toList.map CurvePoint.co) =
        (Path.mk settings.origin (outline.strides settings (.start settings)) ::
          outline.paths settings (.start settings)).map Path.points ∧
      summary.discarded ≤ summary.branches ∧
      (state.skeleton bevel).splines.size = 1 + summary.branches - summary.discarded ∧
      (state.skeleton bevel).pointCount =
        1 + (summary.branches - summary.discarded) + summary.forwardMoves := by
  obtain ⟨outline, rfl, -⟩ := exists_outline_of_walkAlong h
  obtain ⟨hsplines, hmoves, hbranches, hdiscarded⟩ := walkAlong_skeleton h
  have hpaths := outline.length_paths settings (.start settings)
  have hstrides := outline.length_strides_add_steps settings (.start settings)
  refine ⟨outline, rfl, ?_, by omega, ?_, ?_⟩
  · show List.map _ state.splines.toList = _
    rw [hsplines, List.map_map]
    exact List.map_congr_left fun path _ => path.co_spline
  · show state.splines.size = _
    rw [← Array.length_toList, hsplines, List.length_map, List.length_cons]
    omega
  · rw [Skeleton.pointCount_of_paths hsplines, List.length_cons, Path.steps]
    show _ + ((outline.strides settings (.start settings)).length + _) = _
    omega

/-- In `F[+[F]]F` the outer group has no step of its own, and the one inside it has. -/
theorem skeleton_of_walkAlong_nested :
    ∃ state summary,
      walkAlong { step := 1.0, angles := .uniform 0.5 } SkeletonState.builder {}
        [.symbol 'F', .push, .direction ⟨.yaw, true⟩, .push, .symbol 'F', .pop, .pop,
          .symbol 'F'] = .ok (state, summary) ∧
      (state.skeleton {}).splines.size = 2 ∧ (state.skeleton {}).pointCount = 5 := by
  let step (rest : Outline) : Outline := .plain (.symbol 'F') rfl rest
  let outer : Outline := .plain (.direction ⟨.yaw, true⟩) rfl (.group (step .empty) .empty)
  have h := walkAlong_outline { step := 1.0, angles := .uniform 0.5 } SkeletonState.builder
    (step (.group outer (step .empty))) (by decide) {}
  obtain ⟨outline, hword, -, -, hsize, hpoints⟩ := skeleton_of_walkAlong {} h
  exact ⟨_, _, h, hsize, hpoints⟩

end Lindenmayer
