import Lindenmayer.Proofs.Turtle.Stem
import Lindenmayer.Proofs.Turtle.Telling

/-!
# The events of a whole walk

The recorder keeps what a turtle tells. Read with the outline of the word:

* there is one event for each token that is told of, in order (`Outline.marks_events`);
* each branch that ends was begun before, and is discarded if and only if no step lies between
  outside the branches inside it (`Outline.exists_branch`);
* discarded branches are the groups without a step of their own (`Outline.discards_events`);
* so the events and the summary are two views of the word (`events_of_walkAlong`).
-/

namespace Lindenmayer

theorem Token.isTold_of_unbracketed {t : Token} (h : t.isBracket = false) (move : Char) :
    t.isTold move = true ↔ t = .symbol move := by
  cases t with
  | symbol letter => simp [isTold]
  | direction | assign | finish => simp [isTold]
  | push | pop => cases h

theorem Token.isBracket_of_not_told {move : Char} (t : Token) (h : t.isTold move = false) :
    t.isBracket = false := by
  cases t with
  | push | pop => cases h
  | symbol | direction | assign | finish => rfl

/-- A list cut at two of its places: they are the same, or one of them is behind the other. -/
theorem List.cut_cases {α : Type} {a b u v : List α} {x y : α}
    (h : a ++ x :: u = b ++ y :: v) :
    (a = b ∧ x = y ∧ u = v) ∨ (∃ c, b = a ++ x :: c ∧ u = c ++ y :: v) ∨
      ∃ c, a = b ++ y :: c ∧ v = c ++ x :: u := by
  rcases List.append_eq_append_iff.1 h with ⟨c, rfl, hcut⟩ | ⟨c, rfl, hcut⟩
  · cases c with
    | nil =>
        obtain ⟨rfl, rfl⟩ := List.cons.inj hcut
        exact .inl ⟨(List.append_nil a).symm, rfl, rfl⟩
    | cons z c =>
        obtain ⟨rfl, rfl⟩ := List.cons.inj hcut
        exact .inr (.inl ⟨c, rfl, rfl⟩)
  · cases c with
    | nil =>
        obtain ⟨rfl, rfl⟩ := List.cons.inj hcut
        exact .inl ⟨List.append_nil b, rfl, rfl⟩
    | cons z c =>
        obtain ⟨rfl, rfl⟩ := List.cons.inj hcut
        exact .inr (.inr ⟨c, rfl, rfl⟩)

namespace Outline

variable (settings : TurtleSettings)

theorem marks_events (outline : Outline) (stance : Stance) :
    CurveEvent.marks settings.move (outline.events settings stance) =
      outline.word.filter (Token.isTold settings.move) := by
  induction outline generalizing stance with
  | empty => rfl
  | plain t unbracketed rest ih =>
      rw [events, word]
      by_cases hmove : t = .symbol settings.move
      · subst hmove
        rw [if_pos rfl, List.filter_cons_of_pos (by simp [Token.isTold]), ← ih]
        rfl
      · have hsilent : ¬ t.isTold settings.move = true := by
          rw [Token.isTold_of_unbracketed unbracketed]
          exact hmove
        rw [if_neg hmove, List.filter_cons_of_neg hsilent, ih]
  | group inner rest ihInner ihRest =>
      rw [events, word, CurveEvent.marks_append, List.filter_append,
        List.filter_cons_of_pos rfl, List.filter_cons_of_pos rfl, ← ihRest]
      show .push :: CurveEvent.marks settings.move (inner.events settings stance) ++ _ = _
      rw [ihInner]
      rfl

theorem discards_events (outline : Outline) (stance : Stance) :
    (outline.events settings stance).countP CurveEvent.discards =
      outline.barren settings.move := by
  induction outline generalizing stance with
  | empty => rfl
  | plain t unbracketed rest ih =>
      rw [events, barren]
      split
      · rw [List.countP_cons_of_neg (by simp [Stride.event, CurveEvent.discards])]
        exact ih _
      · exact ih _
  | group inner rest ihInner ihRest =>
      rw [events, barren, List.cons_append,
        List.countP_cons_of_neg (by simp [CurveEvent.discards]), List.countP_append,
        List.countP_cons, ihInner, ihRest]
      by_cases hmoves : inner.moves settings.move = 0
      · simp [hmoves, CurveEvent.discards]
        omega
      · simp [hmoves, CurveEvent.discards]

/-- The events of an outline are those of a word whose brackets match. -/
theorem wellNested_marks (outline : Outline) (stance : Stance) :
    Word.WellNested (CurveEvent.marks settings.move (outline.events settings stance)) := by
  rw [marks_events]
  exact Word.WellNested.filter ⟨outline, rfl⟩ Token.isBracket_of_not_told

/-- A branch that ends was begun before, the events between match, and it is discarded if and
only if none of them extends its own path. The induction follows the outline; in a group the end
may lie inside, be that of the group, or lie behind. -/
theorem exists_branch (outline : Outline) {stance : Stance}
    {earlier later : List CurveEvent} {discard : Bool}
    (h : outline.events settings stance = earlier ++ .endBranch discard :: later) :
    ∃ before origin inside, earlier = before ++ .branch origin :: inside ∧
      Word.WellNested (CurveEvent.marks settings.move inside) ∧
      (discard = true ↔ CurveEvent.stemExtensions 0 inside = 0) := by
  induction outline generalizing stance earlier later with
  | empty =>
      rw [events] at h
      cases earlier <;> cases h
  | plain t unbracketed rest ih =>
      rw [events] at h
      split at h
      · cases earlier with
        | nil => cases h
        | cons event earlier =>
            obtain ⟨rfl, hrest⟩ := List.cons.inj h
            obtain ⟨before, origin, inside, rfl, hinside⟩ := ih hrest
            exact ⟨_ :: before, origin, inside, rfl, hinside⟩
      · exact ih h
  | group inner rest ihInner ihRest =>
      rw [events, List.cons_append] at h
      cases earlier with
      | nil => cases h
      | cons event earlier =>
          obtain ⟨rfl, htail⟩ := List.cons.inj h
          rcases List.cut_cases htail with
            ⟨rfl, hend, -⟩ | ⟨behind, rfl, hrest⟩ | ⟨within, hinner, -⟩
          · -- the end of the group itself
            cases hend
            have hcount := inner.stemExtensions_events settings stance [] (Int.le_refl 0)
            rw [List.append_nil, if_pos rfl] at hcount
            refine ⟨[], stance.pose.position, _, rfl, inner.wellNested_marks settings stance, ?_⟩
            rw [hcount, beq_iff_eq]
            rfl
          · obtain ⟨before, origin, inside, rfl, hinside⟩ := ihRest hrest
            refine ⟨.branch stance.pose.position :: (inner.events settings stance ++
              .endBranch (inner.moves settings.move == 0) :: before), origin, inside, ?_, hinside⟩
            simp
          · obtain ⟨before, origin, inside, rfl, hinside⟩ := ihInner hinner
            exact ⟨.branch stance.pose.position :: before, origin, inside, rfl, hinside⟩

end Outline

/-- The recorder of a walk that comes to its end has the start of the root path and then one
event for each move symbol and each bracket, in their order. Branches begin and end in pairs, and
one is discarded if and only if its path was not extended. The summary counts the tokens and the
events alike, and its depth is the most branches that are open at once. -/
theorem events_of_walkAlong {settings : TurtleSettings} {word : Word}
    {events : Array CurveEvent} {summary : WalkSummary}
    (h : walkAlong settings CurveBuilder.recorder #[] word = .ok (events, summary)) :
    ∃ told, events.toList = .startPath settings.origin :: told ∧
      CurveEvent.marks settings.move told = word.filter (Token.isTold settings.move) ∧
      Word.WellNested (CurveEvent.marks settings.move told) ∧
      (∀ earlier discard later, told = earlier ++ .endBranch discard :: later →
        ∃ before origin inside, earlier = before ++ .branch origin :: inside ∧
          Word.WellNested (CurveEvent.marks settings.move inside) ∧
          (discard = true ↔ CurveEvent.stemExtensions 0 inside = 0)) ∧
      (summary.forwardMoves = word.countSymbol settings.move ∧
        summary.forwardMoves =
          Word.countSymbol (CurveEvent.marks settings.move told) settings.move) ∧
      (summary.branches = word.bracketCounts.1 ∧
        summary.branches = (Word.bracketCounts (CurveEvent.marks settings.move told)).1) ∧
      summary.rotations = word.countP Token.isDirection ∧
      summary.discarded = told.countP CurveEvent.discards ∧
      (∀ n, ((CurveEvent.marks settings.move told).take n).count .push ≤
        summary.maxDepth + ((CurveEvent.marks settings.move told).take n).count .pop) ∧
      ∃ n, ((CurveEvent.marks settings.move told).take n).count .push =
        summary.maxDepth + ((CurveEvent.marks settings.move told).take n).count .pop := by
  obtain ⟨outline, rfl, hdepth⟩ := exists_outline_of_walkAlong h
  rw [walkAlong_outline settings CurveBuilder.recorder outline hdepth,
    CurveBuilder.replay_recorder] at h
  cases h
  have hmarks := outline.marks_events settings (.start settings)
  have hnested := outline.wellNested_marks settings (.start settings)
  -- the tokens that are told of have the brackets of the whole word, and so its peak
  have hpeak : ({} : Unmatched).peak
      (CurveEvent.marks settings.move (outline.events settings (.start settings))) =
      outline.depth := by
    rw [hmarks, Unmatched.peak_filter Token.isBracket_of_not_told, outline.peak_word]
    exact Nat.zero_add _
  refine ⟨outline.events settings (.start settings), ?_, hmarks, hnested, ?_, ⟨rfl, ?_⟩,
    ⟨rfl, ?_⟩, rfl, ?_, ?_, ?_⟩
  · show (#[CurveEvent.startPath settings.origin] ++ outline.events settings _).toList = _
    simp
  · intro earlier discard later htold
    exact outline.exists_branch settings htold
  · rw [hmarks]
    exact (List.count_filter (by simp [Token.isTold])).symm
  · rw [hmarks]
    exact (List.count_filter rfl).symm
  · exact (outline.discards_events settings (.start settings)).symm
  · intro n
    have hle := Unmatched.opening_take_le_peak {}
      (CurveEvent.marks settings.move (outline.events settings (.start settings))) n
    rw [hpeak] at hle
    rw [hnested.count_push_take n]
    exact Nat.add_le_add_right hle _
  · obtain ⟨n, hn⟩ := Unmatched.exists_opening_take_eq_peak {}
      (CurveEvent.marks settings.move (outline.events settings (.start settings)))
    rw [hpeak] at hn
    refine ⟨n, ?_⟩
    rw [hnested.count_push_take n]
    exact congrArg (· + _) hn

/-- In `F[+[F]]F` the turn is not told of, and of the two branches the outer one is discarded. -/
theorem events_of_walkAlong_nested :
    ∃ events summary,
      walkAlong { step := 1.0, angles := .uniform 0.5 } CurveBuilder.recorder #[]
        [.symbol 'F', .push, .direction ⟨.yaw, true⟩, .push, .symbol 'F', .pop, .pop,
          .symbol 'F'] = .ok (events, summary) ∧
      ∃ told, events.toList = .startPath .zero :: told ∧
        CurveEvent.marks 'F' told =
          [.symbol 'F', .push, .push, .symbol 'F', .pop, .pop, .symbol 'F'] ∧
        summary.branches = 2 ∧ summary.rotations = 1 ∧
        told.countP CurveEvent.discards = summary.discarded := by
  let step (rest : Outline) : Outline := .plain (.symbol 'F') rfl rest
  let outer : Outline := .plain (.direction ⟨.yaw, true⟩) rfl (.group (step .empty) .empty)
  have hwalk := walkAlong_outline { step := 1.0, angles := .uniform 0.5 } CurveBuilder.recorder
    (step (.group outer (step .empty))) (by decide) #[]
  obtain ⟨told, htold, hmarks, -, -, -, ⟨hbranches, -⟩, hrotations, hdiscarded, -⟩ :=
    events_of_walkAlong hwalk
  exact ⟨_, _, hwalk, told, htold, hmarks, hbranches, hrotations, hdiscarded.symm⟩

end Lindenmayer
