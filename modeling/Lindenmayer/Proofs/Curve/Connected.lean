import Lindenmayer.Proofs.Curve.Skeleton

/-!
# Skeletons are connected

A turtle stays on its skeleton: after any row of tokens it stands at the last point of the
innermost open spline. The proof looks at the splines as a `Nest`, in which each open spline has
the closed ones behind it that began inside it.

* A closing bracket goes back to the pose that was saved, and the builder back to the spline that
  was active then; `Walk.Follows` says that the two belong together on every level. Each token
  keeps it (`Walk.Follows.step`), so each row of tokens does (`Walk.Follows.along`).
* A path begins where the turtle stands, and that is a point of a path that is listed before it,
  also where the path around it is discarded (`Outline.joined_paths`).
* So all splines hang together (`skeleton_connected`).

Points are only copied from one place to another, so all this holds to the last bit.
-/

namespace Lindenmayer

/-- The last point of a spline. -/
def Spline.tip? (spline : Spline) : Option Vector3 := spline.back?.map CurvePoint.co

/-- The last point of the innermost open spline. -/
def SkeletonState.tip? (state : SkeletonState) : Option Vector3 := do
  let place ← state.opened.head?
  let spline ← state.splines[place]?
  spline.tip?

@[simp] theorem Spline.tip?_anchor (origin : Vector3) :
    Spline.tip? #[.anchor origin] = some origin := rfl

@[simp] theorem Spline.tip?_extend (stride : Stride) (spline : Spline) :
    Spline.tip? (stride.extend spline) = some stride.point := by
  simp [tip?, Stride.extend, SkeletonState.extendSpline]

/-! ## Open splines -/

/-- The open splines, each with the closed ones behind it. -/
inductive Nest where
  | root (spline : Spline) (behind : List Spline)
  | branch (outer : Nest) (spline : Spline) (behind : List Spline)

namespace Nest

/-- All splines, in order. -/
def splines : Nest → List Spline
  | root spline behind => spline :: behind
  | branch outer spline behind => outer.splines ++ spline :: behind

/-- The places of the open splines, the innermost first. -/
def places : Nest → List Nat
  | root _ _ => [0]
  | branch outer _ _ => outer.splines.length :: outer.places

/-- The last points of the open splines, the innermost first. -/
def tips : Nest → List (Option Vector3)
  | root spline _ => [spline.tip?]
  | branch outer spline _ => spline.tip? :: outer.tips

/-- What the builder knows of the splines. -/
def state (nest : Nest) : SkeletonState := ⟨nest.splines.toArray, nest.places⟩

/-- The innermost spline with a step more. -/
def extend (stride : Stride) : Nest → Nest
  | root spline behind => root (stride.extend spline) behind
  | branch outer spline behind => branch outer (stride.extend spline) behind

/-- More closed splines behind the innermost. -/
def put (closed : List Spline) : Nest → Nest
  | root spline behind => root spline (behind ++ closed)
  | branch outer spline behind => branch outer spline (behind ++ closed)

@[simp] theorem tips_put (closed : List Spline) (nest : Nest) :
    (nest.put closed).tips = nest.tips := by
  cases nest <;> rfl

theorem tips_extend (stride : Stride) (nest : Nest) :
    (nest.extend stride).tips = some stride.point :: nest.tips.tail := by
  cases nest <;> simp [extend, tips]

theorem take_event (stride : Stride) (nest : Nest) :
    SkeletonState.builder.take stride.event nest.state = (nest.extend stride).state := by
  cases nest with
  | root spline behind => exact SkeletonState.take_event [] behind spline [] stride
  | branch outer spline behind =>
      exact SkeletonState.take_event outer.splines behind spline outer.places stride

theorem take_branch (origin : Vector3) (nest : Nest) :
    SkeletonState.builder.take (.branch origin) nest.state =
      (branch nest #[.anchor origin] []).state := by
  cases nest with
  | root spline behind => exact SkeletonState.take_branch [] behind spline [] origin
  | branch outer spline behind =>
      exact SkeletonState.take_branch outer.splines behind spline outer.places origin

/-- A spline that is closed, or taken out, leaves what began inside it behind the one around. -/
theorem take_endBranch (discard : Bool) (outer : Nest) (child : Spline) (inside : List Spline) :
    SkeletonState.builder.take (.endBranch discard) (branch outer child inside).state =
      (outer.put ((if discard then [] else [child]) ++ inside)).state := by
  cases outer with
  | root spline behind =>
      refine (SkeletonState.take_endBranch [] behind spline [] discard child inside).trans ?_
      rw [List.append_assoc]
      rfl
  | branch outer spline behind =>
      refine (SkeletonState.take_endBranch outer.splines behind spline outer.places discard child
        inside).trans ?_
      rw [List.append_assoc]
      rfl

theorem tip?_state (nest : Nest) : nest.state.tip? = nest.tips.head?.join := by
  cases nest with
  | root spline behind => rfl
  | branch outer spline behind => simp [SkeletonState.tip?, state, splines, places, tips]

end Nest

/-! ## The turtle stays on the skeleton -/

namespace Walk

/-- Where the turtle stands, and where it stood at each open bracket, the innermost first. -/
def stations (walk : Walk SkeletonState) : List Vector3 :=
  walk.pose.position :: walk.frames.toList.reverse.map fun frame => frame.pose.position

/-- The turtle stands at the end of the innermost open spline, and stood at the end of each of
the others when the bracket inside it was opened. -/
def Follows (walk : Walk SkeletonState) : Prop :=
  ∃ nest : Nest, walk.drawing = nest.state ∧ nest.tips = walk.stations.map some

variable {settings : TurtleSettings} {walk next : Walk SkeletonState}

theorem follows_start (settings : TurtleSettings) :
    (Walk.start settings SkeletonState.builder {}).Follows :=
  ⟨.root #[.anchor settings.origin] [], rfl, rfl⟩

theorem Follows.forward (h : walk.Follows) :
    (walk.forward settings SkeletonState.builder).Follows := by
  obtain ⟨nest, hdrawing, htips⟩ := h
  obtain ⟨drawing, pose, steps, frames, jitter, summary⟩ := walk
  let stride : Stride := ⟨(pose.advance settings.step).position, pose.displacement settings.step⟩
  refine ⟨nest.extend stride, ?_, ?_⟩
  · rw [← nest.take_event, ← hdrawing]
    rfl
  · rw [nest.tips_extend, htips]
    rfl

theorem Follows.push (h : walk.Follows) {index : Nat}
    (hpush : walk.push SkeletonState.builder index = .ok next) : next.Follows := by
  obtain ⟨nest, hdrawing, htips⟩ := h
  obtain ⟨drawing, pose, steps, frames, jitter, summary⟩ := walk
  unfold Walk.push at hpush
  dsimp only at hpush
  split at hpush <;> cases hpush
  refine ⟨.branch nest #[.anchor pose.position] [], ?_, ?_⟩
  · rw [← nest.take_branch, ← hdrawing]
    rfl
  · -- the turtle stands where the bracket is opened, on both levels
    rw [Nest.tips, htips]
    simp [stations]

theorem Follows.pop (h : walk.Follows) {index : Nat}
    (hpop : walk.pop SkeletonState.builder index = .ok next) : next.Follows := by
  obtain ⟨nest, hdrawing, htips⟩ := h
  by_cases hopen : walk.frames = #[]
  · rw [pop_of_empty hopen] at hpop
    cases hpop
  · obtain ⟨outer, frame, hframes⟩ := Array.exists_push_of_ne_empty hopen
    rw [pop_of_push hframes] at hpop
    cases hpop
    have hstations : walk.stations = walk.pose.position :: frame.pose.position ::
        outer.toList.reverse.map fun frame => frame.pose.position := by
      simp [stations, hframes]
    rw [hstations] at htips
    cases nest with
    | root spline behind => simp [Nest.tips] at htips
    | branch around child inside =>
        have hclosed := around.take_endBranch (walk.steps == 0) child inside
        rw [← hdrawing] at hclosed
        refine ⟨around.put _, hclosed, ?_⟩
        rw [Nest.tips_put]
        exact List.tail_eq_of_cons_eq htips

/-- No token takes the turtle off the skeleton. -/
theorem Follows.step (h : walk.Follows) {index : Nat} {t : Token}
    (hstep : walk.step settings SkeletonState.builder index t = .ok next) : next.Follows := by
  cases t with
  | symbol letter =>
      unfold Walk.step at hstep
      dsimp only at hstep
      split at hstep <;> cases hstep
      · exact h.forward
      · exact h
  | direction turn =>
      cases hstep
      exact h
  | push => exact h.push hstep
  | pop => exact h.pop hstep
  | assign | finish =>
      cases hstep
      exact h

/-- No row of tokens takes the turtle off the skeleton. -/
theorem Follows.along (h : walk.Follows) {word : Word} {index : Nat}
    (halong : walk.along settings SkeletonState.builder index word = .ok next) :
    next.Follows := by
  induction word generalizing index walk with
  | nil =>
      cases halong
      exact h
  | cons t rest ih =>
      rw [along_cons, bind_eq_ok_iff] at halong
      obtain ⟨between, hstep, hrest⟩ := halong
      exact ih (h.step hstep) hrest

theorem Follows.tip?_drawing (h : walk.Follows) : walk.drawing.tip? = some walk.pose.position := by
  obtain ⟨nest, hdrawing, htips⟩ := h
  rw [hdrawing, nest.tip?_state, htips]
  rfl

end Walk

/-! ## Paths hang together -/

/-- Each path begins in a point that is known or that is on a path listed before it. -/
def Path.Joined : (known : List Vector3) → List Path → Prop
  | _, [] => True
  | known, path :: rest => path.anchor ∈ known ∧ Joined (known ++ path.points) rest

namespace Path.Joined

variable {known more : List Vector3} {paths first second : List Path}

theorem mono (h : Joined known paths) (hmore : ∀ point ∈ known, point ∈ more) :
    Joined more paths := by
  induction paths generalizing known more with
  | nil => trivial
  | cons path rest ih =>
      refine ⟨hmore _ h.1, ih h.2 ?_⟩
      intro point hpoint
      rcases List.mem_append.1 hpoint with hknown | hon
      · exact List.mem_append_left _ (hmore point hknown)
      · exact List.mem_append_right _ hon

theorem append (hfirst : Joined known first) (hsecond : Joined known second) :
    Joined known (first ++ second) := by
  induction first generalizing known with
  | nil => exact hsecond
  | cons path rest ih =>
      have hlater : Joined (known ++ path.points) second :=
        hsecond.mono fun _ hpoint => List.mem_append_left _ hpoint
      exact ⟨hfirst.1, ih hfirst.2 hlater⟩

/-- The beginning of a path, found where it is known from. -/
theorem exists_earlier (h : Joined known paths) {place : Nat} {path : Path}
    (hpath : paths[place]? = some path) :
    path.anchor ∈ known ∨
      ∃ before < place, ∃ earlier, paths[before]? = some earlier ∧
        path.anchor ∈ earlier.points := by
  induction paths generalizing known place with
  | nil => cases hpath
  | cons head rest ih =>
      cases place with
      | zero =>
          cases hpath
          exact .inl h.1
      | succ place =>
          rcases ih h.2 hpath with hknown | ⟨before, hbefore, earlier, hearlier, hon⟩
          · rcases List.mem_append.1 hknown with hgiven | hhead
            · exact .inl hgiven
            · exact .inr ⟨0, Nat.succ_pos place, head, rfl, hhead⟩
          · exact .inr ⟨before + 1, Nat.succ_lt_succ hbefore, earlier, hearlier, hon⟩

end Path.Joined

/-- A move leads to the point of its step, and no other token leads anywhere. -/
theorem Stance.position_take (settings : TurtleSettings) (stance : Stance) (t : Token) :
    (stance.take settings t).pose.position =
      if t = .symbol settings.move then (stance.stride settings).point
      else stance.pose.position := by
  cases t with
  | symbol letter =>
      by_cases hmove : letter = settings.move
      · simp [take, stride, hmove]
      · simp [take, hmove]
  | direction | push | pop | assign | finish => rfl

/-- The paths of groups begin where the turtle stands or on a path listed before them, if all
steps on the active path are known. -/
theorem Outline.joined_paths {settings : TurtleSettings} {outline : Outline} {stance : Stance}
    {known : List Vector3} (hstance : stance.pose.position ∈ known)
    (hstrides : ∀ stride ∈ outline.strides settings stance, stride.point ∈ known) :
    Path.Joined known (outline.paths settings stance) := by
  induction outline generalizing stance known with
  | empty => trivial
  | plain t unbracketed rest ih =>
      have hposition := stance.position_take settings t
      rw [strides] at hstrides
      rw [paths]
      by_cases hmove : t = .symbol settings.move
      · rw [if_pos hmove] at hstrides hposition
        refine ih ?_ fun stride hstride => hstrides stride (List.mem_cons_of_mem _ hstride)
        rw [hposition]
        exact hstrides _ List.mem_cons_self
      · rw [if_neg hmove] at hstrides hposition
        refine ih ?_ hstrides
        rw [hposition]
        exact hstance
  | group inner rest ihInner ihRest =>
      have hrest : Path.Joined known
          (rest.paths settings ⟨stance.pose, (inner.leave settings stance).jitter⟩) :=
        ihRest hstance hstrides
      rw [paths]
      refine Path.Joined.append ?_ hrest
      by_cases hmoves : inner.moves settings.move = 0
      · -- a discarded path has no steps, and its anchor is known already
        have hnone : inner.strides settings stance = [] := by
          rw [← List.length_eq_zero_iff, inner.length_strides, hmoves]
        rw [if_pos hmoves]
        refine ihInner hstance ?_
        rw [hnone]
        intro stride hstride
        cases hstride
      · rw [if_neg hmoves]
        refine ⟨hstance, ihInner ?_ ?_⟩
        · exact List.mem_append_left _ hstance
        · intro stride hstride
          exact List.mem_append_right _ (List.mem_cons_of_mem _ (List.mem_map_of_mem hstride))

theorem Path.exists_first_spline (path : Path) :
    ∃ first, path.spline[0]? = some first ∧ first.co = path.anchor := by
  have hpoints : path.spline.toList.map CurvePoint.co = path.anchor :: _ := path.co_spline
  obtain ⟨first, rest, hspline, hfirst, -⟩ := List.map_eq_cons_iff.1 hpoints
  refine ⟨first, ?_, hfirst⟩
  rw [← Array.getElem?_toList, hspline]
  rfl

theorem Path.exists_mem_spline {path : Path} {place : Vector3} (h : place ∈ path.points) :
    ∃ point ∈ path.spline, point.co = place := by
  rw [← path.co_spline] at h
  obtain ⟨point, hpoint, rfl⟩ := List.mem_map.1 h
  exact ⟨point, Array.mem_toList_iff.1 hpoint, rfl⟩

variable {settings : TurtleSettings} {word : Word} {state : SkeletonState}
  {summary : WalkSummary}

/-- A spline begins in a point of an earlier one. -/
theorem exists_earlier_spline
    (h : walkAlong settings SkeletonState.builder {} word = .ok (state, summary)) {place : Nat}
    {later : Spline} (hlater : state.splines[place + 1]? = some later) :
    ∃ first, later[0]? = some first ∧
      ∃ before < place + 1, ∃ earlier, state.splines[before]? = some earlier ∧
        ∃ point ∈ earlier, point.co = first.co := by
  obtain ⟨outline, rfl, -⟩ := exists_outline_of_walkAlong h
  obtain ⟨hsplines, -⟩ := walkAlong_skeleton h
  let root : Path := ⟨settings.origin, outline.strides settings (.start settings)⟩
  let paths : List Path := outline.paths settings (.start settings)
  have hat : ∀ place : Nat, state.splines[place]? = (root :: paths)[place]?.map Path.spline := by
    intro place
    rw [← Array.getElem?_toList, hsplines, List.getElem?_map]
  have hjoined : Path.Joined root.points paths := by
    refine Outline.joined_paths List.mem_cons_self ?_
    intro stride hstride
    exact List.mem_cons_of_mem _ (List.mem_map_of_mem hstride)
  rw [hat, List.getElem?_cons_succ, Option.map_eq_some_iff] at hlater
  obtain ⟨path, hpath, rfl⟩ := hlater
  obtain ⟨first, hfirst, hanchor⟩ := path.exists_first_spline
  refine ⟨first, hfirst, ?_⟩
  rw [hanchor]
  rcases hjoined.exists_earlier hpath with hroot | ⟨before, hbefore, earlier, hearlier, hon⟩
  · exact ⟨0, Nat.succ_pos place, root.spline, hat 0, Path.exists_mem_spline hroot⟩
  · refine ⟨before + 1, Nat.succ_lt_succ hbefore, earlier.spline, ?_, Path.exists_mem_spline hon⟩
    rw [hat, List.getElem?_cons_succ, hearlier]
    rfl

/-- A turtle that has closed all branches stands at the end of the root path. -/
theorem exists_root_tip
    (h : walkAlong settings SkeletonState.builder {} word = .ok (state, summary)) :
    ∃ root, state.splines[0]? = some root ∧
      ∃ last, root.back? = some last ∧ last.co = summary.finish := by
  unfold walkAlong at h
  obtain ⟨walk, halong, hclose⟩ := bind_eq_ok_iff.1 h
  obtain ⟨nest, hdrawing, htips⟩ := (Walk.follows_start settings).along halong
  unfold Walk.close at hclose
  split at hclose
  · next hempty =>
    cases hclose
    have hstations : walk.stations = [walk.pose.position] := by
      rw [Walk.stations, Array.isEmpty_iff.1 hempty]
      rfl
    rw [hstations] at htips
    cases nest with
    | root spline behind =>
        obtain ⟨last, hlast, hco⟩ := Option.map_eq_some_iff.1 (List.head_eq_of_cons_eq htips)
        rw [hdrawing]
        exact ⟨spline, rfl, last, hlast, hco⟩
    | branch outer spline behind =>
        have hnone : outer.tips = [] := List.tail_eq_of_cons_eq htips
        cases outer <;> cases hnone
  · cases hclose

/-- A turtle that makes a skeleton always stands at the last point of the innermost open spline.
At the end each spline but the first begins in a point of a spline listed before it, and the
turtle stands at the end of the first. -/
theorem skeleton_connected (settings : TurtleSettings) (word : Word) :
    (∀ taken, taken <+: word → ∀ walk,
      (Walk.start settings SkeletonState.builder {}).along settings SkeletonState.builder 0 taken =
        .ok walk →
      walk.drawing.tip? = some walk.pose.position) ∧
    ∀ state summary, walkAlong settings SkeletonState.builder {} word = .ok (state, summary) →
      ∀ bevel : Bevel,
      (∀ (place : Nat) (later : Spline), 0 < place →
        (state.skeleton bevel).splines[place]? = some later →
        ∃ first, later[0]? = some first ∧
        ∃ before < place, ∃ earlier, (state.skeleton bevel).splines[before]? = some earlier ∧
          ∃ point ∈ earlier, point.co = first.co) ∧
      ∃ root, (state.skeleton bevel).splines[0]? = some root ∧
        ∃ last, root.back? = some last ∧ last.co = summary.finish := by
  refine ⟨?_, ?_⟩
  · intro taken _ walk halong
    exact ((Walk.follows_start settings).along halong).tip?_drawing
  · intro state summary h bevel
    refine ⟨?_, exists_root_tip h⟩
    intro place later hplace hlater
    obtain ⟨place, rfl⟩ := Nat.exists_eq_succ_of_ne_zero (Nat.ne_of_gt hplace)
    exact exists_earlier_spline h hlater

/-- In `F[+[F]]F` the spline of the inner group begins on the root path, the outer group having
none. -/
theorem skeleton_connected_nested :
    (∃ walk, (Walk.start { step := 1.0, angles := .uniform 0.5 } SkeletonState.builder {}).along
        { step := 1.0, angles := .uniform 0.5 } SkeletonState.builder 0
        [.symbol 'F', .push, .direction ⟨.yaw, true⟩, .push, .symbol 'F'] = .ok walk ∧
      walk.frames.size = 2 ∧ walk.drawing.tip? = some walk.pose.position) ∧
    ∃ state summary,
      walkAlong { step := 1.0, angles := .uniform 0.5 } SkeletonState.builder {}
        [.symbol 'F', .push, .direction ⟨.yaw, true⟩, .push, .symbol 'F', .pop, .pop,
          .symbol 'F'] = .ok (state, summary) ∧
      ∃ root inner first, state.splines[0]? = some root ∧ state.splines[1]? = some inner ∧
        inner[0]? = some first ∧ ∃ point ∈ root, point.co = first.co := by
  let step (rest : Outline) : Outline := .plain (.symbol 'F') rfl rest
  let outer : Outline := .plain (.direction ⟨.yaw, true⟩) rfl (.group (step .empty) .empty)
  let whole : Outline := step (.group outer (step .empty))
  obtain ⟨hstays, hconnected⟩ :=
    skeleton_connected { step := 1.0, angles := .uniform 0.5 } whole.word
  refine ⟨?_, ?_⟩
  · -- for any settings with this move symbol, so that no number is computed
    have hwalked : ∀ settings : TurtleSettings, settings.move = 'F' → ∃ walk,
        (Walk.start settings SkeletonState.builder {}).along settings SkeletonState.builder 0
          [.symbol 'F', .push, .direction ⟨.yaw, true⟩, .push, .symbol 'F'] = .ok walk ∧
        walk.frames.size = 2 := by
      rintro ⟨step, angles, fraction, seed, move, heading, origin⟩ rfl
      exact ⟨_, rfl, rfl⟩
    obtain ⟨walk, halong, hopen⟩ := hwalked { step := 1.0, angles := .uniform 0.5 } rfl
    exact ⟨walk, halong, hopen, hstays _ ⟨[.pop, .pop, .symbol 'F'], rfl⟩ walk halong⟩
  · obtain ⟨state, summary, hwalk⟩ : ∃ state summary,
        walkAlong { step := 1.0, angles := .uniform 0.5 } SkeletonState.builder {} whole.word =
          .ok (state, summary) := ⟨_, _, walkAlong_outline _ _ whole (by decide) _⟩
    have hpaths : ∀ settings : TurtleSettings, settings.move = 'F' →
        ∃ path, whole.paths settings (.start settings) = [path] := by
      intro settings hmove
      simp [whole, outer, step, Outline.paths, Outline.moves, hmove]
    obtain ⟨path, hpath⟩ := hpaths { step := 1.0, angles := .uniform 0.5 } rfl
    have hinner : state.splines[1]? = some path.spline := by
      rw [← Array.getElem?_toList, (walkAlong_skeleton hwalk).1, hpath]
      rfl
    obtain ⟨hbegins, -⟩ := hconnected state summary hwalk {}
    obtain ⟨first, hfirst, before, hbefore, root, hroot, hpoint⟩ :=
      hbegins 1 path.spline Nat.one_pos hinner
    obtain rfl : before = 0 := Nat.lt_one_iff.1 hbefore
    exact ⟨state, summary, hwalk, root, path.spline, first, hroot, hinner, hfirst, hpoint⟩

end Lindenmayer
