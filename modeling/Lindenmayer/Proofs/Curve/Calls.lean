import Lindenmayer.Curve.Skeleton

/-!
# A skeleton builder under any calls

A turtle makes the calls of a builder in matching pairs, but nothing holds others to that. After
any calls at all, each from the state that the last one left:

* the places of the open splines descend from the innermost to the outermost and are among the
  splines, none of which is empty (`SkeletonState.Sound`);
* one call changes no other spline than the innermost open one (`getElem?_extend_of_ne`,
  `take_endBranch_nested`, `take_endBranch_alone`);
* a spline that is closed stays as it is (`Sound.closed_along`), and the first one that was opened
  stays open (`Sound.root_along`).

Where a spline is taken out, those behind it move up. `placeAfter` and `placeAlong` say where to
find a spline after calls. Everything that moves stands behind the innermost open spline, so it is
closed, and the places of the open ones remain right.
-/

namespace Lindenmayer

/-- Where the path begins that the event begins, if it is such an event. -/
def CurveEvent.origin? : CurveEvent → Option Vector3
  | startPath origin | branch origin => some origin
  | extendPath _ _ _ | endBranch _ => none

namespace SkeletonState

/-- Open places and splines as they are after any calls. -/
structure Sound (state : SkeletonState) : Prop where
  descending : state.opened.Pairwise (· > ·)
  lt_size : ∀ place ∈ state.opened, place < state.splines.size
  ne_empty : ∀ spline ∈ state.splines, spline ≠ #[]
  /-- The first spline is the outermost open one. -/
  rooted : state.splines ≠ #[] → state.opened.getLast? = some 0

/-- Where a spline stands after an event, unless it is taken out. -/
def placeAfter (event : CurveEvent) (state : SkeletonState) (place : Nat) : Option Nat :=
  match event, state.opened with
  | .endBranch true, active :: _ :: _ =>
      if place < active then some place
      else if place = active then none
      else some (place - 1)
  | _, _ => some place

/-- Where a spline stands after events, unless it is taken out. -/
def placeAlong : List CurveEvent → SkeletonState → Nat → Option Nat
  | [], _, place => some place
  | event :: rest, state, place =>
      (placeAfter event state place).bind (placeAlong rest (builder.take event state))

/-! ## One call -/

section

variable {state : SkeletonState} {place : Nat}

theorem take_of_origin? {event : CurveEvent} {origin : Vector3} (h : event.origin? = some origin)
    (state : SkeletonState) :
    builder.take event state =
      ⟨state.splines.push #[.anchor origin], state.splines.size :: state.opened⟩ := by
  cases event <;> cases h <;> rfl

theorem take_extendPath_none (hnone : state.opened = []) (point incoming outgoing : Vector3) :
    builder.take (.extendPath point incoming outgoing) state = state := by
  obtain ⟨splines, opened⟩ := state
  cases hnone
  rfl

theorem take_extendPath_active {active : Nat} {outer : List Nat}
    (hopened : state.opened = active :: outer) (point incoming outgoing : Vector3) :
    builder.take (.extendPath point incoming outgoing) state =
      ⟨state.splines.modify active (extendSpline point incoming outgoing), active :: outer⟩ := by
  obtain ⟨splines, opened⟩ := state
  cases hopened
  rfl

theorem take_endBranch_nested {active parent : Nat} {outer : List Nat}
    (hopened : state.opened = active :: parent :: outer) (discard : Bool) :
    builder.take (.endBranch discard) state =
      ⟨if discard then state.splines.eraseIdxIfInBounds active else state.splines,
        parent :: outer⟩ := by
  obtain ⟨splines, opened⟩ := state
  cases hopened
  rfl

theorem exists_nested (hnested : ¬ state.opened.length ≤ 1) :
    ∃ active parent outer, state.opened = active :: parent :: outer := by
  match hopened : state.opened with
  | [] | [_] => simp [hopened] at hnested
  | active :: parent :: outer => exact ⟨active, parent, outer, rfl⟩

/-- The only open spline is not closed. -/
theorem take_endBranch_alone (halone : state.opened.length ≤ 1) (discard : Bool) :
    builder.take (.endBranch discard) state = state := by
  obtain ⟨splines, opened⟩ := state
  match opened with
  | [] | [_] => rfl
  | _ :: _ :: _ => simp at halone

/-- An extension opens and closes nothing. -/
theorem extendPath_frame (state : SkeletonState) (point incoming outgoing : Vector3) :
    (builder.take (.extendPath point incoming outgoing) state).opened = state.opened ∧
      (builder.take (.extendPath point incoming outgoing) state).splines.size =
        state.splines.size := by
  cases hopened : state.opened with
  | nil =>
      rw [take_extendPath_none hopened]
      exact ⟨hopened, rfl⟩
  | cons active outer =>
      rw [take_extendPath_active hopened]
      exact ⟨rfl, Array.size_modify⟩

/-- An extension changes no spline but the innermost open one. -/
theorem getElem?_extend_of_ne (hother : state.opened.head? ≠ some place)
    (point incoming outgoing : Vector3) :
    (builder.take (.extendPath point incoming outgoing) state).splines[place]? =
      state.splines[place]? := by
  cases hopened : state.opened with
  | nil => rw [take_extendPath_none hopened]
  | cons active outer =>
      have hne : active ≠ place := by
        rintro rfl
        exact hother (by rw [hopened]; rfl)
      rw [take_extendPath_active hopened, Array.getElem?_modify, if_neg hne]

theorem getElem?_discard {active parent : Nat} {outer : List Nat}
    (hopened : state.opened = active :: parent :: outer) (place : Nat) :
    (builder.take (.endBranch true) state).splines[place]? =
      if place < active then state.splines[place]? else state.splines[place + 1]? := by
  rw [take_endBranch_nested hopened, if_pos rfl, ← Array.getElem?_toList,
    Array.toList_eraseIdxIfInBounds, List.getElem?_eraseIdx, Array.getElem?_toList,
    Array.getElem?_toList]

end

/-! ## Soundness -/

namespace Sound

variable {state : SkeletonState}

theorem start : ({} : SkeletonState).Sound where
  descending := .nil
  lt_size := List.forall_mem_nil _
  ne_empty := by simp
  rooted := fun h => absurd rfl h

theorem active_lt_size (h : state.Sound) {active : Nat} {outer : List Nat}
    (hopened : state.opened = active :: outer) : active < state.splines.size :=
  h.lt_size active (by rw [hopened]; exact List.mem_cons_self)

/-- The innermost open spline is behind the others that are open. -/
theorem lt_active (h : state.Sound) {active : Nat} {outer : List Nat}
    (hopened : state.opened = active :: outer) : ∀ place ∈ outer, place < active := by
  have hdescending := h.descending
  rw [hopened] at hdescending
  exact (List.pairwise_cons.1 hdescending).1

/-- Where no spline is open there is none. -/
theorem splines_eq_of_opened_nil (h : state.Sound) (hnone : state.opened = []) :
    state.splines = #[] := by
  refine Classical.byContradiction fun hne => ?_
  have hroot := h.rooted hne
  rw [hnone] at hroot
  cases hroot

theorem splines_ne_empty (h : state.Sound) {place : Nat} (hplace : place ∈ state.opened) :
    state.splines ≠ #[] :=
  Array.ne_empty_of_size_pos (Nat.zero_lt_of_lt (h.lt_size place hplace))

theorem openPath (h : state.Sound) (origin : Vector3) :
    Sound ⟨state.splines.push #[.anchor origin], state.splines.size :: state.opened⟩ where
  descending := List.pairwise_cons.2 ⟨h.lt_size, h.descending⟩
  lt_size := by
    intro place hplace
    rw [Array.size_push]
    rcases List.mem_cons.1 hplace with rfl | hplace
    · exact Nat.lt_succ_self _
    · exact Nat.lt_succ_of_lt (h.lt_size place hplace)
  ne_empty := Array.forall_mem_push.2 ⟨by simp, h.ne_empty⟩
  rooted := by
    intro _
    cases hopened : state.opened with
    | nil =>
        rw [h.splines_eq_of_opened_nil hopened]
        rfl
    | cons active outer =>
        rw [List.getLast?_cons_cons, ← hopened]
        exact h.rooted (Array.ne_empty_of_size_pos (Nat.zero_lt_of_lt (h.active_lt_size hopened)))

theorem extend (h : state.Sound) {active : Nat} {outer : List Nat}
    (hopened : state.opened = active :: outer) (point incoming outgoing : Vector3) :
    Sound ⟨state.splines.modify active (extendSpline point incoming outgoing),
      active :: outer⟩ where
  descending := hopened ▸ h.descending
  lt_size := by
    intro place hplace
    rw [Array.size_modify]
    exact h.lt_size place (hopened ▸ hplace)
  ne_empty := by
    intro spline hspline
    obtain ⟨place, hplace⟩ := Array.mem_iff_getElem?.1 hspline
    rw [Array.getElem?_modify] at hplace
    split at hplace
    · obtain ⟨old, -, rfl⟩ := Option.map_eq_some_iff.1 hplace
      simp [extendSpline]
    · exact h.ne_empty spline (Array.mem_iff_getElem?.2 ⟨place, hplace⟩)
  rooted := by
    intro hne
    rw [← hopened]
    refine h.rooted fun hnone => hne ?_
    rw [hnone]
    rfl

theorem endBranch (h : state.Sound) {active parent : Nat} {outer : List Nat}
    (hopened : state.opened = active :: parent :: outer) (discard : Bool) :
    Sound ⟨if discard then state.splines.eraseIdxIfInBounds active else state.splines,
      parent :: outer⟩ := by
  have hactive := h.active_lt_size hopened
  have hdescending := h.descending
  have hroot := h.rooted (Array.ne_empty_of_size_pos (Nat.zero_lt_of_lt hactive))
  rw [hopened] at hdescending hroot
  rw [List.getLast?_cons_cons] at hroot
  refine ⟨hdescending.of_cons, ?_, ?_, fun _ => hroot⟩
  · -- an open place is before the one that is closed, so it is still in range without it
    intro place hplace
    have hbefore := h.lt_active hopened place hplace
    cases discard
    · exact Nat.lt_trans hbefore hactive
    · simp [Array.eraseIdxIfInBounds, hactive]
      omega
  · intro spline hspline
    cases discard
    · exact h.ne_empty spline hspline
    · rw [if_pos rfl, ← Array.mem_toList_iff, Array.toList_eraseIdxIfInBounds] at hspline
      exact h.ne_empty spline (Array.mem_toList_iff.1 (List.mem_of_mem_eraseIdx hspline))

/-- Any call keeps places and splines sound. -/
theorem take (h : state.Sound) (event : CurveEvent) : (builder.take event state).Sound := by
  cases event with
  | startPath origin | branch origin =>
      rw [take_of_origin? rfl]
      exact h.openPath origin
  | extendPath point incoming outgoing =>
      cases hopened : state.opened with
      | nil =>
          rw [take_extendPath_none hopened]
          exact h
      | cons active outer =>
          rw [take_extendPath_active hopened]
          exact h.extend hopened point incoming outgoing
  | endBranch discard =>
      by_cases halone : state.opened.length ≤ 1
      · rw [take_endBranch_alone halone]
        exact h
      · obtain ⟨active, parent, outer, hopened⟩ := exists_nested halone
        rw [take_endBranch_nested hopened]
        exact h.endBranch hopened discard

/-- Any calls keep places and splines sound. -/
theorem replay (h : state.Sound) (events : List CurveEvent) :
    (builder.replay events state).Sound := by
  induction events generalizing state with
  | nil => exact h
  | cons event rest ih => exact ih (h.take event)

end Sound

/-! ## Where splines stay -/

/-- A spline stands at the place, and it is not open. -/
def Closed (state : SkeletonState) (place : Nat) : Prop :=
  place < state.splines.size ∧ place ∉ state.opened

section

variable {state : SkeletonState}

theorem placeAfter_discard {active parent : Nat} {outer : List Nat}
    (hopened : state.opened = active :: parent :: outer) (place : Nat) :
    placeAfter (.endBranch true) state place =
      if place < active then some place
      else if place = active then none
      else some (place - 1) := by
  unfold placeAfter
  rw [hopened]

/-- Nothing is taken out where the only open spline would be. -/
theorem placeAfter_alone (halone : state.opened.length ≤ 1) (event : CurveEvent) (place : Nat) :
    placeAfter event state place = some place := by
  unfold placeAfter
  split
  · next hopened =>
    rw [hopened] at halone
    simp at halone
  · rfl

namespace Sound

variable {place : Nat}

/-- What moves up where a spline is taken out stays behind all that is open. -/
theorem closed_discard (h : state.Sound) (hclosed : state.Closed place) {active parent : Nat}
    {outer : List Nat} (hopened : state.opened = active :: parent :: outer) :
    ∃ after, placeAfter (.endBranch true) state place = some after ∧
      (builder.take (.endBranch true) state).Closed after ∧
      (builder.take (.endBranch true) state).splines[after]? = state.splines[place]? := by
  obtain ⟨hsize, hplace⟩ := hclosed
  have hactive := h.active_lt_size hopened
  have hafter : (builder.take (.endBranch true) state).splines.size =
      state.splines.size - 1 := by
    simp [take_endBranch_nested hopened, Array.eraseIdxIfInBounds, hactive]
  have hopen : (builder.take (.endBranch true) state).opened = parent :: outer := by
    rw [take_endBranch_nested hopened]
  rw [hopened] at hplace
  obtain ⟨hne, houter⟩ := List.ne_and_not_mem_of_not_mem_cons hplace
  unfold Closed
  rw [placeAfter_discard hopened, hafter, hopen]
  by_cases hlt : place < active
  · refine ⟨place, if_pos hlt, ⟨by omega, houter⟩, ?_⟩
    rw [getElem?_discard hopened, if_pos hlt]
  · rw [if_neg hlt, if_neg hne]
    refine ⟨place - 1, rfl, ⟨by omega, ?_⟩, ?_⟩
    · intro hmem
      have hbefore := h.lt_active hopened _ hmem
      omega
    · rw [getElem?_discard hopened, if_neg (by omega), Nat.sub_add_cancel (by omega)]

/-- A call leaves a closed spline as it is. -/
theorem closed_take (h : state.Sound) (hclosed : state.Closed place) (event : CurveEvent) :
    ∃ after, placeAfter event state place = some after ∧
      (builder.take event state).Closed after ∧
      (builder.take event state).splines[after]? = state.splines[place]? := by
  obtain ⟨hsize, hplace⟩ := hclosed
  cases event with
  | startPath origin | branch origin =>
      have hne : place ≠ state.splines.size := Nat.ne_of_lt hsize
      rw [take_of_origin? rfl]
      refine ⟨place, rfl, ⟨?_, ?_⟩, ?_⟩
      · rw [Array.size_push]
        exact Nat.lt_succ_of_lt hsize
      · exact List.not_mem_cons_of_ne_of_not_mem hne hplace
      · rw [Array.getElem?_push, if_neg hne]
  | extendPath point incoming outgoing =>
      have hother : state.opened.head? ≠ some place := by
        intro hhead
        exact hplace (List.mem_of_mem_head? hhead)
      obtain ⟨hopened, hcount⟩ := extendPath_frame state point incoming outgoing
      refine ⟨place, rfl, ?_, getElem?_extend_of_ne hother point incoming outgoing⟩
      rw [Closed, hopened, hcount]
      exact ⟨hsize, hplace⟩
  | endBranch discard =>
      by_cases halone : state.opened.length ≤ 1
      · rw [take_endBranch_alone halone]
        exact ⟨place, placeAfter_alone halone _ place, ⟨hsize, hplace⟩, rfl⟩
      · obtain ⟨active, parent, outer, hopened⟩ := exists_nested halone
        cases discard with
        | false =>
            rw [take_endBranch_nested hopened]
            rw [hopened] at hplace
            exact ⟨place, rfl, ⟨hsize, List.not_mem_of_not_mem_cons hplace⟩, rfl⟩
        | true => exact h.closed_discard ⟨hsize, hplace⟩ hopened

/-- A closed spline stays as it is, wherever it moves. -/
theorem closed_along (h : state.Sound) (hclosed : state.Closed place)
    (events : List CurveEvent) :
    ∃ after, placeAlong events state place = some after ∧
      (builder.replay events state).Closed after ∧
      (builder.replay events state).splines[after]? = state.splines[place]? := by
  induction events generalizing state place with
  | nil => exact ⟨place, rfl, hclosed, rfl⟩
  | cons event rest ih =>
      obtain ⟨next, hnext, hclosed', hsame⟩ := h.closed_take hclosed event
      obtain ⟨after, hafter, hlast, hsame'⟩ := ih (h.take event) hclosed'
      rw [placeAlong, hnext]
      exact ⟨after, hafter, hlast, hsame'.trans hsame⟩

/-- A call leaves the first spline where it is, and open. -/
theorem root_take (h : state.Sound) (hroot : 0 ∈ state.opened) (event : CurveEvent) :
    placeAfter event state 0 = some 0 ∧ 0 ∈ (builder.take event state).opened := by
  cases event with
  | startPath origin | branch origin =>
      rw [take_of_origin? rfl]
      exact ⟨rfl, List.mem_cons_of_mem _ hroot⟩
  | extendPath point incoming outgoing =>
      rw [(extendPath_frame state point incoming outgoing).1]
      exact ⟨rfl, hroot⟩
  | endBranch discard =>
      by_cases halone : state.opened.length ≤ 1
      · rw [take_endBranch_alone halone]
        exact ⟨placeAfter_alone halone _ 0, hroot⟩
      · obtain ⟨active, parent, outer, hopened⟩ := exists_nested halone
        -- the outermost open place is 0, and it is not the innermost one
        have hlast := h.rooted (h.splines_ne_empty hroot)
        rw [hopened, List.getLast?_cons_cons] at hlast
        have hmem := List.mem_of_getLast? hlast
        have hlt := h.lt_active hopened 0 hmem
        rw [take_endBranch_nested hopened]
        refine ⟨?_, hmem⟩
        cases discard with
        | false => rfl
        | true => rw [placeAfter_discard hopened, if_pos hlt]

/-- The first spline stays where it is, and open. -/
theorem root_along (h : state.Sound) (hroot : 0 ∈ state.opened) (events : List CurveEvent) :
    placeAlong events state 0 = some 0 ∧ 0 ∈ (builder.replay events state).opened := by
  induction events generalizing state with
  | nil => exact ⟨rfl, hroot⟩
  | cons event rest ih =>
      obtain ⟨hplace, hopen⟩ := h.root_take hroot event
      rw [placeAlong, hplace]
      exact ih (h.take event) hopen

end Sound

end

/-- Before a path is begun no call does anything. -/
theorem replay_silent {events : List CurveEvent} (h : ∀ event ∈ events, event.origin? = none) :
    builder.replay events {} = {} := by
  induction events with
  | nil => rfl
  | cons event rest ih =>
      obtain ⟨hevent, hrest⟩ := List.forall_mem_cons.1 h
      have htake : builder.take event {} = {} := by
        cases event with
        | startPath | branch => cases hevent
        | extendPath | endBranch => rfl
      rw [CurveBuilder.replay_cons, htake, ih hrest]

end SkeletonState

/-- A skeleton builder is safe and local under any calls. The open places ascend from the
outermost to the innermost and are among the splines, each of which has a point. An extension
changes no spline but the innermost open one; the end of a branch takes out that one if it is to
be discarded, and changes no other. The first path that is begun stays open, so where no other is
open the end of a branch changes nothing. A closed spline stays as it is, wherever it moves. -/
theorem skeleton_of_calls (calls : List CurveEvent) :
    let state := SkeletonState.builder.replay calls {}
    (state.opened.reverse.Pairwise (· < ·) ∧
      (∀ place ∈ state.opened, place < state.splines.size) ∧
      ∀ spline ∈ state.splines, spline ≠ #[]) ∧
    (∀ point incoming outgoing,
      let after := SkeletonState.builder.take (.extendPath point incoming outgoing) state
      after.opened = state.opened ∧ after.splines.size = state.splines.size ∧
        ∀ place, state.opened.head? ≠ some place →
          after.splines[place]? = state.splines[place]?) ∧
    (SkeletonState.builder.take (.endBranch false) state).splines = state.splines ∧
    (∀ active parent outer, state.opened = active :: parent :: outer →
      let after := SkeletonState.builder.take (.endBranch true) state
      after.splines.toList = state.splines.toList.eraseIdx active ∧
        after.opened = parent :: outer) ∧
    (∀ silent opening later, calls = silent ++ opening :: later →
      (∀ call ∈ silent, call.origin? = none) → opening.origin?.isSome = true →
      let begun := SkeletonState.builder.replay (silent ++ [opening]) {}
      begun.splines.size = 1 ∧ begun.opened = [0] ∧
        SkeletonState.placeAlong later begun 0 = some 0 ∧ 0 ∈ state.opened) ∧
    (state.opened.length ≤ 1 →
      ∀ discard, SkeletonState.builder.take (.endBranch discard) state = state) ∧
    ∀ place, state.Closed place → ∀ later, ∃ after,
      SkeletonState.placeAlong later state place = some after ∧
        (SkeletonState.builder.replay later state).Closed after ∧
        (SkeletonState.builder.replay later state).splines[after]? = state.splines[place]? := by
  intro state
  have hsound : state.Sound := SkeletonState.Sound.start.replay calls
  refine ⟨⟨List.pairwise_reverse.2 hsound.descending, hsound.lt_size, hsound.ne_empty⟩,
    ?_, ?_, ?_, ?_, fun halone => SkeletonState.take_endBranch_alone halone,
    fun place hclosed later => hsound.closed_along hclosed later⟩
  · intro point incoming outgoing
    obtain ⟨hopened, hsize⟩ := SkeletonState.extendPath_frame state point incoming outgoing
    exact ⟨hopened, hsize, fun place hother =>
      SkeletonState.getElem?_extend_of_ne hother point incoming outgoing⟩
  · by_cases halone : state.opened.length ≤ 1
    · rw [SkeletonState.take_endBranch_alone halone]
    · obtain ⟨active, parent, outer, hopened⟩ := SkeletonState.exists_nested halone
      rw [SkeletonState.take_endBranch_nested hopened]
      rfl
  · intro active parent outer hopened
    rw [SkeletonState.take_endBranch_nested hopened]
    exact ⟨Array.toList_eraseIdxIfInBounds, rfl⟩
  · intro silent opening later hcalls hsilent hopening
    obtain ⟨origin, horigin⟩ := Option.isSome_iff_exists.1 hopening
    have hbegun : SkeletonState.builder.replay (silent ++ [opening]) {} =
        ⟨#[#[.anchor origin]], [0]⟩ := by
      rw [CurveBuilder.replay_append, SkeletonState.replay_silent hsilent,
        CurveBuilder.replay_cons, SkeletonState.take_of_origin? horigin]
      rfl
    have hstate : state = SkeletonState.builder.replay later ⟨#[#[.anchor origin]], [0]⟩ := by
      rw [← hbegun, ← CurveBuilder.replay_append, List.append_assoc, List.singleton_append,
        ← hcalls]
    have hstays := SkeletonState.Sound.root_along
      (hbegun ▸ SkeletonState.Sound.start.replay (silent ++ [opening]))
      (List.mem_singleton_self 0) later
    rw [hbegun, hstate]
    exact ⟨rfl, rfl, hstays⟩

/-- A spline that was begun behind two open ones stays as it is while the inner one of these is
taken out, and moves to its place. -/
theorem skeleton_of_calls_unbalanced :
    let calls : List CurveEvent :=
      [.endBranch true, .extendPath .unitZ .zero .zero, .branch .zero, .startPath .unitX,
        .branch .unitY, .extendPath .unitZ .unitY .zero, .endBranch false]
    let later : List CurveEvent :=
      [.endBranch true, .endBranch true, .extendPath .unitX .zero .zero]
    let state := SkeletonState.builder.replay calls {}
    state.opened = [1, 0] ∧ state.Closed 2 ∧
      SkeletonState.placeAlong later state 2 = some 1 ∧
      (SkeletonState.builder.replay later state).splines[1]? = state.splines[2]? := by
  intro calls later state
  have hopened : state.opened = [1, 0] := rfl
  have hclosed : state.Closed 2 := ⟨Nat.lt_succ_self 2, by rw [hopened]; decide⟩
  obtain ⟨-, -, -, -, -, -, hstays⟩ := skeleton_of_calls calls
  obtain ⟨after, hafter, -, hsame⟩ := hstays 2 hclosed later
  have hplace : SkeletonState.placeAlong later state 2 = some 1 := rfl
  obtain rfl : 1 = after := Option.some.inj (hplace.symm.trans hafter)
  exact ⟨hopened, hclosed, hplace, hsame⟩

end Lindenmayer
