import Lindenmayer.Proofs.Turtle.Telling

/-!
# A branch left out

A closing bracket takes the turtle back to the pose, the path and the frames that it had at the
opening one. What is not taken back is the stream of offsets, and that is untouched where offsets
are off or the branch does not turn (`Outline.jitter_leave`). Then a walk goes on behind the
branch as it would have gone on in its place (`Walk.redrawn_of_group`), so the branch may be left
out of the word, and its own events and counts are all that is missing
(`walkAlong_without_branch`).
-/

namespace Lindenmayer

variable {settings : TurtleSettings}

/-- No offset is drawn in the word. -/
def Word.Undrawn (settings : TurtleSettings) (word : Word) : Prop :=
  ¬ settings.jitterBound > 0.0 ∨ ∀ t ∈ word, t.isDirection = false

theorem Word.Undrawn.mono {u v : Word} (h : Word.Undrawn settings v) (hsub : ∀ t ∈ u, t ∈ v) :
    Word.Undrawn settings u := by
  rcases h with hoff | hturns
  · exact .inl hoff
  · exact .inr fun t ht => hturns t (hsub t ht)

theorem Stance.jitter_take {t : Token} (h : Word.Undrawn settings [t]) (stance : Stance) :
    (stance.take settings t).jitter = stance.jitter := by
  cases t with
  | symbol letter =>
      rw [take]
      split <;> rfl
  | direction turn =>
      rcases h with hoff | hturns
      · simp [take, Walk.offset, hoff]
      · have hfalse := hturns (.direction turn) (List.mem_singleton.2 rfl)
        cases hfalse
  | push | pop | assign | finish => rfl

/-- Where no offset is drawn, the stream stays as it is. -/
theorem Outline.jitter_leave (outline : Outline) (h : Word.Undrawn settings outline.word)
    (stance : Stance) : (outline.leave settings stance).jitter = stance.jitter := by
  induction outline generalizing stance with
  | empty => rfl
  | plain t unbracketed rest ih =>
      have hfirst : Word.Undrawn settings [t] := by
        apply h.mono
        intro s hs
        rw [List.mem_singleton.1 hs]
        exact List.mem_cons_self
      have hrest : Word.Undrawn settings rest.word := by
        apply h.mono
        intro s hs
        exact List.mem_cons_of_mem _ hs
      rw [leave, ih hrest, Stance.jitter_take hfirst]
  | group inner rest ihInner ihRest =>
      have hinner : Word.Undrawn settings inner.word := by
        apply h.mono
        intro s hs
        simp [word, hs]
      have hrest : Word.Undrawn settings rest.word := by
        apply h.mono
        intro s hs
        simp [word, hs]
      rw [leave, ihRest hrest]
      exact ihInner hinner stance

namespace Walk

variable {σ : Type} {builder : CurveBuilder σ}

/-- Behind a branch that draws no offsets the walk is where it was before it. -/
theorem redrawn_of_group {inner : Outline} (hundrawn : Word.Undrawn settings inner.word)
    {index : Nat} {walk after : Walk σ} (hfits : walk.frames.size ≤ Limits.branchStack)
    (h : walk.along settings builder index (Outline.group inner .empty).word = .ok after)
    {τ : Type} (drawing : τ) (summary : WalkSummary) :
    after.redrawn drawing summary = walk.redrawn drawing summary := by
  have hexplains := explains_along settings builder (Outline.group inner .empty).word index walk
    hfits
  rw [h] at hexplains
  have hroom := hexplains.2
  rw [Outline.peak_word] at hroom
  rw [along_outline (.group inner .empty) index walk hroom] at h
  cases h
  have hjitter := inner.jitter_leave hundrawn walk.stance
  simp only [redrawn, after, Outline.leave, Outline.moves, hjitter, Nat.add_zero]
  rfl

/-- No more frames are saved on the way than fit. -/
theorem frames_le_of_along {word : Word} {index : Nat} {walk last : Walk σ}
    (hfits : walk.frames.size ≤ Limits.branchStack)
    (h : walk.along settings builder index word = .ok last) :
    last.frames.size ≤ Limits.branchStack := by
  have hexplains := explains_along settings builder word index walk hfits
  rw [h] at hexplains
  obtain ⟨hbrackets, hpeak⟩ := hexplains
  have hlast := Unmatched.opening_take_le_peak walk.brackets word word.length
  rw [List.take_length, ← hbrackets] at hlast
  exact Nat.le_trans hlast hpeak

theorem frames_of_close {walk : Walk σ} {result : σ × WalkSummary}
    (h : walk.close = .ok result) : walk.frames = #[] := by
  unfold close at h
  split at h
  · next hempty => exact Array.isEmpty_iff.1 hempty
  · cases h

end Walk

/-- A stretch along a whole word is what the builder is told and what the walk amounts to. -/
theorem walkAlong_of_leads {σ : Type} {builder : CurveBuilder σ} {drawing : σ} {word : Word}
    {last : Walk σ} {stretch : Stretch}
    (hleads : Walk.Leads settings word (.start settings builder drawing) last stretch)
    (hempty : last.frames = #[]) :
    walkAlong settings builder drawing word =
      .ok (builder.replay stretch.told (builder.startPath settings.origin drawing),
        { stretch.gain with finish := last.pose.position }) := by
  have halong := hleads builder (builder.startPath settings.origin drawing) {} 0
  have hclosed : (last.redrawn (builder.replay stretch.told
      (builder.startPath settings.origin drawing))
      (WalkSummary.append {} stretch.gain)).frames = #[] := hempty
  unfold walkAlong
  rw [show Walk.start settings builder drawing = (Walk.start settings builder drawing).redrawn
    (builder.startPath settings.origin drawing) {} from rfl, halong, ok_bind,
    Walk.close_of_empty hclosed]
  simp [Walk.redrawn, WalkSummary.append]

/-- The events of a branch: its beginning, what is told inside, and its end. -/
def CurveEvent.block (origin : Vector3) (inside : List CurveEvent) (discard : Bool) :
    List CurveEvent :=
  .branch origin :: (inside ++ [.endBranch discard])

/-- What is told along a group is a block. -/
theorem CurveEvent.exists_block {move : Char} {w : Word} {told : List CurveEvent}
    (h : marks move told = (Token.push :: (w ++ [.pop])).filter (Token.isTold move)) :
    ∃ origin inside discard, told = block origin inside discard ∧
      marks move inside = w.filter (Token.isTold move) := by
  rw [List.filter_cons_of_pos rfl, List.filter_append] at h
  obtain ⟨first, rest, rfl, hfirst, hrest⟩ := List.map_eq_cons_iff.1 h
  obtain ⟨inside, last, rfl, hinside, hlast⟩ := List.map_eq_append_iff.1 hrest
  obtain ⟨final, tail, rfl, hfinal, htail⟩ := List.map_eq_cons_iff.1 hlast
  obtain rfl := List.map_eq_nil_iff.1 htail
  cases first with
  | startPath | extendPath | endBranch => cases hfirst
  | branch origin =>
      cases final with
      | startPath | extendPath | branch => cases hfinal
      | endBranch discard => exact ⟨origin, inside, discard, rfl, hinside⟩

/-- A branch whose brackets match, and that draws no offsets, can be left out of a word. The rest
is walked as before: the events are those of the whole word but for the block of the branch, the
turtle ends in the same place, and the counts differ by those of the branch. -/
theorem walkAlong_without_branch {u w v : Word} {events : Array CurveEvent}
    {summary : WalkSummary} (hnested : w.WellNested)
    (hquiet : ¬ settings.jitterBound > 0.0 ∨ ∀ t ∈ w, t.isDirection = false)
    (h : walkAlong settings CurveBuilder.recorder #[] (u ++ .push :: (w ++ [.pop]) ++ v) =
      .ok (events, summary)) :
    ∃ before origin inside discard behind shorter,
      events.toList = .startPath settings.origin ::
        (before ++ CurveEvent.block origin inside discard ++ behind) ∧
      walkAlong settings CurveBuilder.recorder #[] (u ++ v) =
        .ok ((.startPath settings.origin :: (before ++ behind)).toArray, shorter) ∧
      CurveEvent.marks settings.move before = u.filter (Token.isTold settings.move) ∧
      CurveEvent.marks settings.move inside = w.filter (Token.isTold settings.move) ∧
      CurveEvent.marks settings.move behind = v.filter (Token.isTold settings.move) ∧
      summary.finish = shorter.finish ∧
      summary.forwardMoves = shorter.forwardMoves + w.countSymbol settings.move ∧
      summary.rotations = shorter.rotations + w.countP Token.isDirection ∧
      summary.branches = shorter.branches + (w.bracketCounts.1 + 1) ∧
      summary.discarded = shorter.discarded +
        (CurveEvent.block origin inside discard).countP CurveEvent.discards := by
  obtain ⟨inner, rfl⟩ := hnested
  -- the walk along the whole word, cut before and behind the branch
  obtain ⟨last, halong, hclose⟩ := bind_eq_ok_iff.1 h
  rw [Walk.along_append, Walk.along_append] at halong
  obtain ⟨after, hfront, hback⟩ := bind_eq_ok_iff.1 halong
  obtain ⟨mid, hu, hgroup⟩ := bind_eq_ok_iff.1 hfront
  obtain ⟨front, hcoversFront, hleadsFront⟩ := Walk.exists_stretch_of_along hu
  obtain ⟨block, hcoversBlock, hleadsBlock⟩ := Walk.exists_stretch_of_along hgroup
  obtain ⟨back, hcoversBack, hleadsBack⟩ := Walk.exists_stretch_of_along hback
  obtain ⟨origin, inside, discard, htold, hinside⟩ :=
    CurveEvent.exists_block hcoversBlock.marks
  have hfits := Walk.frames_le_of_along (Nat.zero_le _) hu
  -- what leads on from behind the branch leads on from before it
  have hskip : Walk.Leads settings v mid last back := by
    intro τ builder drawing summary index
    rw [← Walk.redrawn_of_group hquiet hfits hgroup]
    exact hleadsBack builder drawing summary index
  have hempty := Walk.frames_of_close hclose
  have hwhole := walkAlong_of_leads ((hleadsFront.append hleadsBlock).append hleadsBack) hempty
  have hshort := walkAlong_of_leads (hleadsFront.append hskip) hempty
  rw [CurveBuilder.replay_recorder] at hwhole hshort
  rw [hwhole] at h
  cases h
  refine ⟨front.told, origin, inside, discard, back.told,
    { (front.append back).gain with finish := last.pose.position }, ?_, ?_,
    hcoversFront.marks, hinside, hcoversBack.marks, rfl, ?_, ?_, ?_, ?_⟩
  · rw [← htold]
    show (#[CurveEvent.startPath settings.origin] ++ (front.told ++ block.told ++ back.told)).toList
      = _
    simp
  · rw [hshort]
    show Except.ok (#[CurveEvent.startPath settings.origin] ++ (front.told ++ back.told), _) = _
    simp
  · have hblock : block.gain.forwardMoves = inner.word.countSymbol settings.move := by
      rw [hcoversBlock.forwardMoves]
      simp [Word.countSymbol]
    show front.gain.forwardMoves + block.gain.forwardMoves + back.gain.forwardMoves =
      front.gain.forwardMoves + back.gain.forwardMoves + _
    omega
  · have hblock : block.gain.rotations = inner.word.countP Token.isDirection := by
      rw [hcoversBlock.rotations]
      simp [Token.isDirection]
    show front.gain.rotations + block.gain.rotations + back.gain.rotations =
      front.gain.rotations + back.gain.rotations + _
    omega
  · have hblock : block.gain.branches = inner.word.bracketCounts.1 + 1 := by
      rw [hcoversBlock.branches]
      simp [Word.bracketCounts]
    show front.gain.branches + block.gain.branches + back.gain.branches =
      front.gain.branches + back.gain.branches + _
    omega
  · have hblock := hcoversBlock.discarded
    rw [htold] at hblock
    show front.gain.discarded + block.gain.discarded + back.gain.discarded =
      front.gain.discarded + back.gain.discarded + _
    omega

/-- The branch `[+[F]]` of `F[+[F]]F` is left out without a trace, as offsets are off. -/
theorem walkAlong_without_branch_nested :
    ∃ events summary,
      walkAlong { step := 1.0, angles := .uniform 0.5 } CurveBuilder.recorder #[]
        ([.symbol 'F'] ++ .push ::
          ([.direction ⟨.yaw, true⟩, .push, .symbol 'F', .pop] ++ [.pop]) ++ [.symbol 'F']) =
        .ok (events, summary) ∧
      ∃ before inside behind shorter,
        walkAlong { step := 1.0, angles := .uniform 0.5 } CurveBuilder.recorder #[]
          [.symbol 'F', .symbol 'F'] =
          .ok ((.startPath .zero :: (before ++ behind)).toArray, shorter) ∧
        CurveEvent.marks 'F' inside = [.push, .symbol 'F', .pop] ∧
        summary.finish = shorter.finish ∧ summary.branches = shorter.branches + 2 := by
  let step (rest : Outline) : Outline := .plain (.symbol 'F') rfl rest
  let turning : Outline := .plain (.direction ⟨.yaw, true⟩) rfl (.group (step .empty) .empty)
  have hoff : ¬ ({ step := 1.0, angles := .uniform 0.5 } : TurtleSettings).jitterBound > 0.0 := by
    decide
  have hwalk := walkAlong_outline { step := 1.0, angles := .uniform 0.5 } CurveBuilder.recorder
    (step (.group turning (step .empty))) (by decide) #[]
  obtain ⟨before, -, inside, -, behind, shorter, -, hshort, -, hinside, -, hfinish, -, -,
    hbranches, -⟩ := walkAlong_without_branch (u := [.symbol 'F']) (v := [.symbol 'F'])
      ⟨turning, rfl⟩ (.inl hoff) hwalk
  exact ⟨_, _, hwalk, before, inside, behind, shorter, hshort, hinside, hfinish, hbranches⟩

end Lindenmayer
