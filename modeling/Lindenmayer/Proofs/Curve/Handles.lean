import Lindenmayer.Proofs.Curve.Calls
import Lindenmayer.Proofs.Curve.Skeleton

/-!
# Where handles come from

The handles of a point are set when it is drawn and set again when its path goes on, however many
branches begin and end in between. Told by events alone, without a builder:

* a path is extended by the extensions that stand outside the branches inside it, up to its end
  (`CurveEvent.extensions`, `CurveEvent.courses`);
* along such a path each point looks towards its own successor, and the last one keeps the handles
  that it was drawn with (`CurvePoint.along`).

The splines of a walk are the paths of its events in their order, without the branches that are
never extended, and each is drawn that way (`handles_of_walkAlong`).
-/

namespace Lindenmayer

/-- A point that a path is extended to, with the tangents on its two sides. -/
structure Extension where
  point : Vector3
  incoming : Vector3
  outgoing : Vector3

/-- A path as it is told: the point it begins in, and its extensions. -/
structure Course where
  origin : Vector3
  extensions : List Extension

/-- The path is extended. -/
def Course.isExtended (course : Course) : Bool := !course.extensions.isEmpty

namespace CurveEvent

/-- The extensions of a path among the events behind its beginning, where `depth` branches inside
it are open. -/
def extensions : (depth : Nat) → List CurveEvent → List Extension
  | _, [] => []
  | depth, .startPath _ :: rest | depth, .branch _ :: rest => extensions (depth + 1) rest
  | 0, .extendPath point incoming outgoing :: rest =>
      ⟨point, incoming, outgoing⟩ :: extensions 0 rest
  | depth + 1, .extendPath _ _ _ :: rest => extensions (depth + 1) rest
  | 0, .endBranch _ :: _ => []
  | depth + 1, .endBranch _ :: rest => extensions depth rest

/-- The paths that are told of, in the order in which they begin. -/
def courses : List CurveEvent → List Course
  | [] => []
  | event :: rest =>
      match event.origin? with
      | some origin => ⟨origin, extensions 0 rest⟩ :: courses rest
      | none => courses rest

/-- The paths that are drawn: the first one, and of the branches those that are extended. -/
def drawn (events : List CurveEvent) : List Course :=
  match courses events with
  | [] => []
  | root :: branches => root :: branches.filter Course.isExtended

end CurveEvent

/-! ## Points along a path -/

/-- A point that a path is extended to, before the path goes on. -/
def Extension.drawnPoint (extension : Extension) : CurvePoint :=
  ⟨extension.point, extension.incoming, extension.outgoing⟩

namespace CurvePoint

/-- A point that looks towards its successor. -/
def towards (point : CurvePoint) (next : Extension) : CurvePoint where
  co := point.co
  handleLeft := point.co - (next.point - next.incoming)
  handleRight := point.co + (next.point - next.incoming)

/-- The points of a path from a point on. -/
def along (point : CurvePoint) : List Extension → List CurvePoint
  | [] => [point]
  | next :: rest => point.towards next :: next.drawnPoint.along rest

variable {point : CurvePoint} {extensions : List Extension} {k : Nat}

theorem length_along (point : CurvePoint) (extensions : List Extension) :
    (point.along extensions).length = extensions.length + 1 := by
  induction extensions generalizing point with
  | nil => rfl
  | cons next rest ih => rw [along, List.length_cons, ih, List.length_cons]

theorem getElem?_along_zero (point : CurvePoint) (extensions : List Extension) :
    ∃ first, (point.along extensions)[0]? = some first ∧ first.co = point.co := by
  cases extensions <;> exact ⟨_, rfl, rfl⟩

/-- A point with a successor looks towards it. -/
theorem exists_next_of_along {current next : CurvePoint}
    (hcurrent : (point.along extensions)[k]? = some current)
    (hnext : (point.along extensions)[k + 1]? = some next) :
    ∃ extension, extensions[k]? = some extension ∧ next.co = extension.point ∧
      current = current.towards extension := by
  induction extensions generalizing point k with
  | nil => cases hnext
  | cons extension rest ih =>
      cases k with
      | zero =>
          cases hcurrent
          obtain ⟨first, hfirst, hco⟩ := getElem?_along_zero extension.drawnPoint rest
          obtain rfl := Option.some.inj (hfirst.symm.trans hnext)
          exact ⟨extension, rfl, hco, rfl⟩
      | succ k => exact ih hcurrent hnext

/-- A point without a successor is the only one. -/
theorem eq_of_along_one_none (hnone : (point.along extensions)[1]? = none) : extensions = [] := by
  rw [List.getElem?_eq_none_iff, length_along] at hnone
  exact List.length_eq_zero_iff.1 (Nat.le_zero.1 (Nat.le_of_succ_le_succ hnone))

/-- The last point is as it was drawn. -/
theorem exists_last_of_along {last : CurvePoint}
    (hlast : (point.along extensions)[k + 1]? = some last)
    (hnone : (point.along extensions)[k + 2]? = none) :
    ∃ extension, extensions[k]? = some extension ∧ last = extension.drawnPoint := by
  induction extensions generalizing point k with
  | nil => cases hlast
  | cons extension rest ih =>
      cases k with
      | zero =>
          have hrest : rest = [] := eq_of_along_one_none hnone
          subst hrest
          cases hlast
          exact ⟨extension, rfl, rfl⟩
      | succ k => exact ih hlast hnone

end CurvePoint

/-- What is told of a step. -/
def Stride.extension (stride : Stride) : Extension :=
  ⟨stride.point, stride.point - stride.displacement, stride.point + stride.displacement⟩

/-- A step bends the last point towards the new one. -/
theorem Stride.extend_concat (before : List CurvePoint) (point : CurvePoint) (stride : Stride) :
    stride.extend (before ++ [point]).toArray =
      (before ++ [point.towards stride.extension] ++ [stride.extension.drawnPoint]).toArray := by
  have hlast : (before ++ [point]).toArray.size - 1 = before.length := by simp
  unfold Stride.extend SkeletonState.extendSpline
  dsimp only
  rw [hlast, List.modify_toArray, List.modify_length_append, List.push_toArray]
  rfl

/-- The path as it is told. -/
def Path.course (path : Path) : Course := ⟨path.anchor, path.strides.map Stride.extension⟩

theorem Path.toList_spline (path : Path) :
    path.spline.toList = (CurvePoint.anchor path.anchor).along path.course.extensions := by
  have hfold : ∀ (strides : List Stride) (before : List CurvePoint) (point : CurvePoint),
      strides.foldl Stride.extend (before ++ [point]).toArray =
        (before ++ point.along (strides.map Stride.extension)).toArray := by
    intro strides
    induction strides with
    | nil => exact fun _ _ => rfl
    | cons stride rest ih =>
        intro before point
        rw [List.foldl_cons, Stride.extend_concat, ih, List.append_assoc]
        rfl
  exact congrArg Array.toList (hfold path.strides [] (.anchor path.anchor))

/-! ## Paths of events -/

namespace Outline

variable (settings : TurtleSettings)

/-- In the events of an outline each branch that begins ends, so the path around them is extended
by the steps outside all groups. -/
theorem extensions_events (outline : Outline) (stance : Stance) (depth : Nat)
    (rest : List CurveEvent) :
    CurveEvent.extensions depth (outline.events settings stance ++ rest) =
      (if depth = 0 then (outline.strides settings stance).map Stride.extension else []) ++
        CurveEvent.extensions depth rest := by
  induction outline generalizing stance depth rest with
  | empty => simp [events, strides]
  | plain t unbracketed tail ih =>
      rw [events, strides]
      by_cases hmove : t = .symbol settings.move
      · rw [if_pos hmove, if_pos hmove, List.cons_append, Stride.event]
        cases depth with
        | zero =>
            rw [CurveEvent.extensions, ih]
            rfl
        | succ depth =>
            rw [CurveEvent.extensions, ih, if_neg (Nat.succ_ne_zero depth),
              if_neg (Nat.succ_ne_zero depth)]
      · rw [if_neg hmove, if_neg hmove, ih]
  | group inner tail ihInner ihTail =>
      rw [events, List.append_assoc, List.cons_append, CurveEvent.extensions, ihInner,
        if_neg (Nat.succ_ne_zero depth), List.nil_append, List.cons_append,
        CurveEvent.extensions, ihTail, strides]

/-- The branches of an outline that are extended are its paths. -/
theorem courses_events (outline : Outline) (stance : Stance) (rest : List CurveEvent) :
    (CurveEvent.courses (outline.events settings stance ++ rest)).filter Course.isExtended =
      (outline.paths settings stance).map Path.course ++
        (CurveEvent.courses rest).filter Course.isExtended := by
  induction outline generalizing stance rest with
  | empty => rfl
  | plain t unbracketed tail ih =>
      rw [events, paths]
      split
      · exact ih _ rest
      · exact ih _ rest
  | group inner tail ihInner ihTail =>
      -- the path of the group ends with the group
      have hown : CurveEvent.extensions 0 (inner.events settings stance ++
          .endBranch (inner.moves settings.move == 0) ::
            (tail.events settings ⟨stance.pose, (inner.leave settings stance).jitter⟩ ++ rest)) =
          (inner.strides settings stance).map Stride.extension := by
        rw [extensions_events]
        simp [CurveEvent.extensions]
      have hbehind := ihTail ⟨stance.pose, (inner.leave settings stance).jitter⟩ rest
      have hmoves := inner.length_strides settings stance
      rw [events, List.append_assoc, List.cons_append, List.cons_append, paths, List.append_assoc,
        List.map_append, List.map_append, List.append_assoc, List.append_assoc, ← hbehind]
      show List.filter _ (Course.mk _ (CurveEvent.extensions 0 _) :: CurveEvent.courses _) = _
      rw [hown, List.filter_cons, ihInner]
      by_cases hnone : inner.moves settings.move = 0
      · rw [hnone, List.length_eq_zero_iff] at hmoves
        rw [if_pos hnone, hmoves]
        rfl
      · have hsome : inner.strides settings stance ≠ [] := by
          rintro hnil
          rw [hnil] at hmoves
          exact hnone hmoves.symm
        have hextended : Course.isExtended ⟨stance.pose.position,
            (inner.strides settings stance).map Stride.extension⟩ = true := by
          simpa [Course.isExtended] using hsome
        rw [if_neg hnone, if_pos hextended]
        rfl

end Outline

/-- The paths that the events of an outline tell of, behind the beginning of the root path. -/
theorem Outline.drawn_events (settings : TurtleSettings) (outline : Outline) (stance : Stance)
    (origin : Vector3) :
    CurveEvent.drawn (.startPath origin :: outline.events settings stance) =
      (Path.mk origin (outline.strides settings stance) ::
        outline.paths settings stance).map Path.course := by
  have hroot := outline.extensions_events settings stance 0 []
  have hbranches := outline.courses_events settings stance []
  rw [List.append_nil] at hroot hbranches
  show Course.mk origin (CurveEvent.extensions 0 _) :: (CurveEvent.courses _).filter _ = _
  rw [hroot, hbranches, CurveEvent.extensions, CurveEvent.courses, List.filter_nil,
    List.append_nil, List.append_nil]
  rfl

/-- The splines that a walk draws are the paths that it tells of. -/
theorem walkAlong_drawn {settings : TurtleSettings} {word : Word} {state : SkeletonState}
    {summary : WalkSummary}
    (h : walkAlong settings SkeletonState.builder {} word = .ok (state, summary)) :
    ∃ events, walkAlong settings .recorder #[] word = .ok (events, summary) ∧
      state.splines.toList.map Array.toList =
        (CurveEvent.drawn events.toList).map fun course =>
          (CurvePoint.anchor course.origin).along course.extensions := by
  obtain ⟨outline, rfl, hdepth⟩ := exists_outline_of_walkAlong h
  have hsplines := (walkAlong_skeleton h).1
  have hrecorded := walkAlong_outline settings .recorder outline hdepth #[]
  have hdrawn := outline.drawn_events settings (.start settings) settings.origin
  rw [CurveBuilder.replay_recorder] at hrecorded
  rw [walkAlong_outline settings SkeletonState.builder outline hdepth] at h
  cases h
  refine ⟨_, hrecorded, ?_⟩
  have htold : (CurveBuilder.recorder.startPath settings.origin #[] ++
      outline.events settings (.start settings)).toList =
      .startPath settings.origin :: outline.events settings (.start settings) := by
    simp [CurveBuilder.recorder]
  rw [hsplines, htold, hdrawn, List.map_map, List.map_map]
  exact List.map_congr_left fun path _ => path.toList_spline

/-- Handles come from the path's own next extension. The splines of a walk that comes to its end
are, one for one, the paths that its events tell of. A point with a successor has its handles on
both sides in the direction of that successor, by the tangent that this was told with; the last
point of an extended path has the tangents that it was told with itself; and an anchor on its own
has both handles in itself. -/
theorem handles_of_walkAlong {settings : TurtleSettings} {word : Word} {state : SkeletonState}
    {summary : WalkSummary} (bevel : Bevel)
    (h : walkAlong settings SkeletonState.builder {} word = .ok (state, summary)) :
    ∃ events, walkAlong settings .recorder #[] word = .ok (events, summary) ∧
      (state.skeleton bevel).splines.size = (CurveEvent.drawn events.toList).length ∧
      ∀ (place : Nat) (spline : Spline), (state.skeleton bevel).splines[place]? = some spline →
        ∃ course, (CurveEvent.drawn events.toList)[place]? = some course ∧
          (∀ (k : Nat) (point next : CurvePoint),
            spline[k]? = some point → spline[k + 1]? = some next →
            ∃ extension, course.extensions[k]? = some extension ∧ next.co = extension.point ∧
              point.handleLeft = point.co - (next.co - extension.incoming) ∧
              point.handleRight = point.co + (next.co - extension.incoming)) ∧
          (∀ (k : Nat) (last : CurvePoint),
            spline[k + 1]? = some last → spline[k + 2]? = none →
            ∃ extension, course.extensions[k]? = some extension ∧ last.co = extension.point ∧
              last.handleLeft = extension.incoming ∧ last.handleRight = extension.outgoing) ∧
          ∃ anchor, spline[0]? = some anchor ∧ anchor.co = course.origin ∧
            (spline[1]? = none →
              anchor.handleLeft = anchor.co ∧ anchor.handleRight = anchor.co) := by
  obtain ⟨events, hevents, hdrawn⟩ := walkAlong_drawn h
  refine ⟨events, hevents, ?_, ?_⟩
  · have hlength := congrArg List.length hdrawn
    rwa [List.length_map, List.length_map, Array.length_toList] at hlength
  · intro place spline hspline
    have hat := congrArg (·[place]?) hdrawn
    rw [List.getElem?_map, List.getElem?_map, Array.getElem?_toList,
      show state.splines[place]? = some spline from hspline] at hat
    obtain ⟨course, hcourse, hpoints⟩ := Option.map_eq_some_iff.1 hat.symm
    simp only [← Array.getElem?_toList, ← hpoints]
    refine ⟨course, hcourse, ?_, ?_, ?_⟩
    · intro k point next hpoint hnext
      obtain ⟨extension, hextension, hco, htowards⟩ := CurvePoint.exists_next_of_along hpoint hnext
      rw [htowards, hco]
      exact ⟨extension, hextension, rfl, rfl, rfl⟩
    · intro k last hlast hnone
      obtain ⟨extension, hextension, rfl⟩ := CurvePoint.exists_last_of_along hlast hnone
      exact ⟨extension, hextension, rfl, rfl, rfl⟩
    · obtain ⟨anchor, hanchor, hco⟩ := CurvePoint.getElem?_along_zero (.anchor course.origin)
        course.extensions
      refine ⟨anchor, hanchor, hco, ?_⟩
      intro hnone
      rw [CurvePoint.eq_of_along_one_none hnone] at hanchor
      cases hanchor
      exact ⟨rfl, rfl⟩

/-- In `F[+[F]]F` the second point of the root path looks towards the third, past both groups. -/
theorem handles_of_walkAlong_nested :
    ∃ state summary events,
      walkAlong { step := 1.0, angles := .uniform 0.5 } SkeletonState.builder {}
        [.symbol 'F', .push, .direction ⟨.yaw, true⟩, .push, .symbol 'F', .pop, .pop,
          .symbol 'F'] = .ok (state, summary) ∧
      walkAlong { step := 1.0, angles := .uniform 0.5 } .recorder #[]
        [.symbol 'F', .push, .direction ⟨.yaw, true⟩, .push, .symbol 'F', .pop, .pop,
          .symbol 'F'] = .ok (events, summary) ∧
      ∃ (root : Spline) (course : Course) (second third : CurvePoint) (extension : Extension),
        state.splines[0]? = some root ∧ (CurveEvent.drawn events.toList)[0]? = some course ∧
          root[1]? = some second ∧ root[2]? = some third ∧
          course.extensions[1]? = some extension ∧
          second.handleRight = second.co + (third.co - extension.incoming) := by
  let step (rest : Outline) : Outline := .plain (.symbol 'F') rfl rest
  let outer : Outline := .plain (.direction ⟨.yaw, true⟩) rfl (.group (step .empty) .empty)
  let whole : Outline := step (.group outer (step .empty))
  obtain ⟨state, summary, hwalk⟩ : ∃ state summary,
      walkAlong { step := 1.0, angles := .uniform 0.5 } SkeletonState.builder {} whole.word =
        .ok (state, summary) := ⟨_, _, walkAlong_outline _ _ whole (by decide) _⟩
  let root : Path := ⟨.zero, whole.strides { step := 1.0, angles := .uniform 0.5 }
    (.start { step := 1.0, angles := .uniform 0.5 })⟩
  have hroot : state.splines[0]? = some root.spline := by
    rw [← Array.getElem?_toList, (walkAlong_skeleton hwalk).1]
    rfl
  have hsize : root.spline.size = 3 := by
    rw [root.size_spline, whole.length_strides]
    rfl
  have hsecond : root.spline[1]? = some root.spline[1] := Array.getElem?_eq_getElem _
  have hthird : root.spline[2]? = some root.spline[2] := Array.getElem?_eq_getElem _
  obtain ⟨events, hevents, -, hhandles⟩ := handles_of_walkAlong {} hwalk
  obtain ⟨course, hcourse, hnext, -, -⟩ := hhandles 0 root.spline hroot
  obtain ⟨extension, hextension, -, -, hright⟩ := hnext 1 _ _ hsecond hthird
  exact ⟨state, summary, events, hwalk, hevents, root.spline, course, _, _, extension, hroot,
    hcourse, hsecond, hthird, hextension, hright⟩

end Lindenmayer
