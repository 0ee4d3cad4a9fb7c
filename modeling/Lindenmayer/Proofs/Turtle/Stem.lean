import Lindenmayer.Proofs.Curve.Skeleton
import Lindenmayer.Turtle.Stem

/-!
# The stem, counted three times

The stem is counted on the word by a depth that never falls below zero, in the events by the
branches that are open, and in the skeleton by the points of the root path. Along a walk that
comes to its end the three agree (`stemMoves_of_walkAlong`), since each of them counts the steps
outside all groups:

* on the word (`Outline.countStem_word`),
* in the events (`Outline.stemExtensions_events`),
* on the root path, by its size (`Path.size_spline`).
-/

namespace Lindenmayer

/-- Extensions of a path while no branch is open. `opened` branches have been opened and not
ended before. -/
def CurveEvent.stemExtensions : (opened : Int) → List CurveEvent → Nat
  | _, [] => 0
  | opened, event :: rest =>
      match event with
      | .startPath _ => stemExtensions opened rest
      | .extendPath _ _ _ => (if opened = 0 then 1 else 0) + stemExtensions opened rest
      | .branch _ => stemExtensions (opened + 1) rest
      | .endBranch _ => stemExtensions (opened - 1) rest

namespace Outline

/-- Counting along a word with matching brackets, the depth comes back to where it was, and what
is counted are the steps outside all groups. -/
theorem countStem_word (move : Char) (outline : Outline) (rest : Word) (depth count : Nat) :
    Turtle.countStem move (outline.word ++ rest) depth count =
      Turtle.countStem move rest depth
        (if depth = 0 then count + outline.moves move else count) := by
  induction outline generalizing rest depth count with
  | empty => simp [word, moves]
  | plain t unbracketed tail ih =>
      cases t with
      | symbol letter =>
          rw [word, List.cons_append, Turtle.countStem, ih, moves]
          by_cases hdepth : depth = 0
          · by_cases hmove : letter = move
            · simp [hdepth, hmove, Nat.add_assoc]
            · simp [hdepth, hmove]
          · simp [hdepth]
      | direction | assign | finish => simp [word, Turtle.countStem, ih, moves]
      | push | pop => cases unbracketed
  | group inner tail ihInner ihTail =>
      -- inside the group the depth is not zero, so nothing is counted there
      rw [word, List.append_assoc, List.cons_append, Turtle.countStem, ihInner,
        if_neg (Nat.succ_ne_zero depth), List.cons_append, Turtle.countStem, Nat.add_sub_cancel,
        ihTail, moves]

/-- In the events of a word with matching brackets each branch that is opened is ended, and what
is counted are the steps outside all groups. -/
theorem stemExtensions_events (settings : TurtleSettings) (outline : Outline) (stance : Stance)
    (rest : List CurveEvent) {opened : Int} (hopened : 0 ≤ opened) :
    CurveEvent.stemExtensions opened (outline.events settings stance ++ rest) =
      (if opened = 0 then outline.moves settings.move else 0) +
        CurveEvent.stemExtensions opened rest := by
  induction outline generalizing stance rest opened with
  | empty => simp [events, moves]
  | plain t unbracketed tail ih =>
      rw [events, moves]
      by_cases hmove : t = .symbol settings.move
      · rw [if_pos hmove, if_pos hmove, List.cons_append, Stride.event,
          CurveEvent.stemExtensions, ih _ _ hopened]
        by_cases hstem : opened = 0
        · simp [hstem, Nat.add_assoc]
        · simp [hstem]
      · rw [if_neg hmove, if_neg hmove, ih _ _ hopened, Nat.zero_add]
  | group inner tail ihInner ihTail =>
      have hinside : 0 ≤ opened + 1 := by omega
      have hnested : opened + 1 ≠ 0 := by omega
      rw [events, List.append_assoc, List.cons_append, CurveEvent.stemExtensions,
        ihInner _ _ hinside, if_neg hnested, Nat.zero_add, List.cons_append,
        CurveEvent.stemExtensions, Int.add_sub_cancel, ihTail _ _ hopened, moves]

/-- The stem of a word with matching brackets is its steps outside all groups. -/
theorem stemMoves_word (move : Char) (outline : Outline) :
    Turtle.stemMoves move outline.word = outline.moves move := by
  have h := countStem_word move outline [] 0 0
  rw [List.append_nil] at h
  rw [Turtle.stemMoves, h]
  simp [Turtle.countStem]

end Outline

/-- Along a word that a turtle can walk to its end, with whatever builder, the moves that fit the
step are the extensions told while no branch is open, and the points of the root path behind its
anchor. -/
theorem stemMoves_of_walkAlong {σ : Type} {settings : TurtleSettings} {builder : CurveBuilder σ}
    {drawing : σ} {word : Word} {result : σ × WalkSummary}
    (h : walkAlong settings builder drawing word = .ok result) (bevel : Bevel) :
    ∃ events state summary,
      walkAlong settings (CurveBuilder.recorder.tee SkeletonState.builder) (#[], {}) word =
        .ok ((events, state), summary) ∧
      Turtle.stemMoves settings.move word = CurveEvent.stemExtensions 0 events.toList ∧
      ∃ root, (state.skeleton bevel).splines[0]? = some root ∧
        root.size = Turtle.stemMoves settings.move word + 1 := by
  obtain ⟨outline, rfl, hdepth⟩ := exists_outline_of_walkAlong h
  let told := outline.events settings (.start settings)
  let root : Path := ⟨settings.origin, outline.strides settings (.start settings)⟩
  have hdrawn : (CurveBuilder.recorder.tee SkeletonState.builder).replay told
      ((CurveBuilder.recorder.tee SkeletonState.builder).startPath settings.origin (#[], {})) =
      (#[CurveEvent.startPath settings.origin] ++ told,
        .amid [] root.spline ((outline.paths settings (.start settings)).map Path.spline) []) := by
    show (CurveBuilder.recorder.tee SkeletonState.builder).replay told
      (#[.startPath settings.origin], .amid [] #[.anchor settings.origin] [] []) = _
    rw [CurveBuilder.replay_tee, CurveBuilder.replay_recorder, SkeletonState.replay_events]
    rfl
  have hwalk := walkAlong_outline settings (CurveBuilder.recorder.tee SkeletonState.builder)
    outline hdepth (#[], {})
  rw [hdrawn] at hwalk
  refine ⟨_, _, _, hwalk, ?_, root.spline, rfl, ?_⟩
  · have hcount := outline.stemExtensions_events settings (.start settings) [] (Int.le_refl 0)
    rw [List.append_nil, if_pos rfl] at hcount
    rw [outline.stemMoves_word]
    simpa [CurveEvent.stemExtensions] using hcount.symm
  · rw [root.size_spline, outline.length_strides, outline.stemMoves_word, Nat.add_comm]

/-- In `F[F[F]]F` two of the four moves are on the stem. -/
theorem stemMoves_of_walkAlong_nested :
    ∃ events state summary,
      walkAlong { step := 1.0, angles := .uniform 0.5 }
          (CurveBuilder.recorder.tee SkeletonState.builder) (#[], {})
          [.symbol 'F', .push, .symbol 'F', .push, .symbol 'F', .pop, .pop, .symbol 'F'] =
        .ok ((events, state), summary) ∧
      CurveEvent.stemExtensions 0 events.toList = 2 ∧
      ∃ root, (state.skeleton {}).splines[0]? = some root ∧ root.size = 3 := by
  let step (rest : Outline) : Outline := .plain (.symbol 'F') rfl rest
  have haccepted := walkAlong_outline { step := 1.0, angles := .uniform 0.5 }
    CurveBuilder.recorder (step (.group (step (.group (step .empty) .empty)) (step .empty)))
    (by decide) #[]
  obtain ⟨events, state, summary, hwalk, hevents, root, hroot, hsize⟩ :=
    stemMoves_of_walkAlong haccepted {}
  exact ⟨events, state, summary, hwalk, hevents.symm, root, hroot, hsize⟩

end Lindenmayer
