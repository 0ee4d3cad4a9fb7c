import Lindenmayer.Proofs.Turtle.Breaking
import Lindenmayer.Proofs.Turtle.Telling
import Mathlib.Data.List.Induction

/-!
# Which words can be walked along

A turtle counts its brackets with a stack. Counted in the word instead: as far as no branch is
closed that was not opened, and no more are open than frames fit (`Word.Walkable`), the tokens
are taken, and the frames are the branches that are open (`Walk.exists_step_of_fits`,
`Walk.exists_along_of_walkable`). What stops a walk is

* the first token behind which a word is not walkable any more: a closing bracket where nothing
  is open (`walkAlong?_of_pop`), or an opening one where all frames are in use
  (`walkAlong?_of_push`);
* or, where there is no such token, the branches that are open at the end
  (`walkAlong?_of_unclosed`);
* in front of these, a turn that can not be made (`walkAlong?_of_turn`).

These are all the words there are (`Word.walkable_cases`), so each outcome is known from the
counts alone where offsets can be drawn, and otherwise from them and the first turn
(`walkAlong?_exact`).
-/

namespace Lindenmayer

namespace Word

/-- The word closes no more branches than it opens, and leaves no more open than frames fit. -/
def Fits (word : Word) : Prop :=
  word.count .pop ≤ word.count .push ∧
    word.count .push ≤ word.count .pop + Limits.branchStack

/-- Every prefix of the word fits. -/
def Walkable (word : Word) : Prop := ∀ u : Word, u <+: word → u.Fits

theorem walkable_nil : Walkable [] := by
  intro u hu
  rw [List.prefix_nil.1 hu]
  exact ⟨Nat.le_refl _, Nat.zero_le _⟩

theorem Walkable.mono {u v : Word} (h : Walkable v) (hbegins : u <+: v) : Walkable u :=
  fun p hp => h p (hp.trans hbegins)

theorem walkable_concat_iff {u : Word} {t : Token} :
    Walkable (u ++ [t]) ↔ Walkable u ∧ Fits (u ++ [t]) := by
  constructor
  · intro h
    exact ⟨h.mono (List.prefix_append u [t]), h _ (List.prefix_refl _)⟩
  · rintro ⟨hu, hwhole⟩ p hp
    rcases List.prefix_concat_iff.1 hp with rfl | hp
    · exact hwhole
    · exact hu p hp

/-- A walkable word may end in any token but the brackets that do not fit. -/
theorem Walkable.concat_cases {u : Word} (h : Walkable u) (t : Token) :
    Walkable (u ++ [t]) ∨ (t = .pop ∧ u.count .push = u.count .pop) ∨
      (t = .push ∧ u.count .push = u.count .pop + Limits.branchStack) := by
  obtain ⟨hle, hroom⟩ := h u (List.prefix_refl _)
  cases t with
  | push =>
      by_cases hfull : u.count .push = u.count .pop + Limits.branchStack
      · exact .inr (.inr ⟨rfl, hfull⟩)
      · refine .inl (walkable_concat_iff.2 ⟨h, ?_, ?_⟩)
        · simp
          omega
        · simp
          omega
  | pop =>
      by_cases hnone : u.count .push = u.count .pop
      · exact .inr (.inl ⟨rfl, hnone⟩)
      · refine .inl (walkable_concat_iff.2 ⟨h, ?_, ?_⟩)
        · simp
          omega
        · simp
          omega
  | symbol | direction | assign | finish =>
      refine .inl (walkable_concat_iff.2 ⟨h, ?_, ?_⟩)
      · simpa using hle
      · simpa using hroom

/-- A word is walkable, or there is a first token behind which it is not any more. The induction
is on the word from its end. -/
theorem walkable_cases (word : Word) :
    Walkable word ∨
      (∃ u v : Word, word = u ++ .pop :: v ∧ Walkable u ∧ u.count .push = u.count .pop) ∨
      ∃ u v : Word, word = u ++ .push :: v ∧ Walkable u ∧
        u.count .push = u.count .pop + Limits.branchStack := by
  induction word using List.reverseRecOn with
  | nil => exact .inl walkable_nil
  | append_singleton word t ih =>
      rcases ih with hwalkable | ⟨u, v, rfl, hu, hnone⟩ | ⟨u, v, rfl, hu, hfull⟩
      · rcases hwalkable.concat_cases t with hnext | ⟨rfl, hnone⟩ | ⟨rfl, hfull⟩
        · exact .inl hnext
        · exact .inr (.inl ⟨word, [], rfl, hwalkable, hnone⟩)
        · exact .inr (.inr ⟨word, [], rfl, hwalkable, hfull⟩)
      · exact .inr (.inl ⟨u, v ++ [t], by simp, hu, hnone⟩)
      · exact .inr (.inr ⟨u, v ++ [t], by simp, hu, hfull⟩)

end Word

variable {σ : Type} (settings : TurtleSettings) (builder : CurveBuilder σ)

namespace Walk

/-- The frames of the walk are the branches that the word leaves open. -/
def Opens (walk : Walk σ) (word : Word) : Prop :=
  walk.frames.size + word.count .pop = word.count .push

theorem Opens.size_frames {walk : Walk σ} {u : Word} {n : Nat} (h : walk.Opens u)
    (hopened : u.count .push = u.count .pop + n) : walk.frames.size = n := by
  unfold Opens at h
  omega

/-- A token is taken where the word still fits behind it. -/
theorem exists_step_of_fits {walk : Walk σ} {u : Word} {t : Token} (hopens : walk.Opens u)
    (hfits : Word.Fits (u ++ [t])) (index : Nat) :
    ∃ next, walk.step settings builder index t = .ok next ∧ next.Opens (u ++ [t]) := by
  obtain ⟨hle, hroom⟩ := hfits
  unfold Opens at hopens
  cases t with
  | push =>
      have hfree : walk.frames.size < Limits.branchStack := by
        simp at hroom
        omega
      refine ⟨_, push_of_lt hfree index, ?_⟩
      show (walk.frames.push _).size + _ = _
      simp
      omega
  | pop =>
      rcases hsize : walk.frames.size with _ | n
      · -- no branch is open, so the word closes one branch too many
        simp at hle
        omega
      · obtain ⟨outer, frame, hframes⟩ := Array.exists_push_of_size_eq_add_one hsize
        refine ⟨_, pop_of_push hframes index, ?_⟩
        rw [hframes, Array.size_push] at hopens
        show outer.size + _ = _
        simp
        omega
  | symbol letter =>
      refine ⟨_, rfl, ?_⟩
      unfold Opens
      split <;> simpa [forward] using hopens
  | direction | assign | finish =>
      refine ⟨_, rfl, ?_⟩
      unfold Opens
      simpa [rotate, rotateBy] using hopens

/-- A walkable row of tokens is taken. The induction is on the row from its end. -/
theorem exists_along_of_walkable (drawing : σ) {word : Word} (h : word.Walkable) :
    ∃ last, (start settings builder drawing).along settings builder 0 word = .ok last ∧
      last.Opens word := by
  induction word using List.reverseRecOn with
  | nil => exact ⟨_, rfl, rfl⟩
  | append_singleton u t ih =>
      obtain ⟨hu, hfits⟩ := Word.walkable_concat_iff.1 h
      obtain ⟨walk, halong, hopens⟩ := ih hu
      obtain ⟨next, hstep, hnext⟩ :=
        exists_step_of_fits settings builder hopens hfits (0 + u.length)
      refine ⟨next, ?_, hnext⟩
      rw [along_append, halong, ok_bind, along_singleton, hstep]

end Walk

section

variable (drawing : σ) {u : Word}

/-- A walk comes to the end of a walkable row of tokens whose turns can be made, and goes on with
what is behind it. -/
theorem Walk.exists_along?_append (hu : u.Walkable) (hmanages : settings.Manages u) (v : Word) :
    ∃ walk : Walk σ, walk.Opens u ∧
      (start settings builder drawing).along? settings builder 0 (u ++ v) =
        walk.along? settings builder u.length v := by
  obtain ⟨walk, halong, hopens⟩ := exists_along_of_walkable settings builder drawing hu
  refine ⟨walk, hopens, ?_⟩
  rw [along?_append, along?_of_manages hmanages, halong, Nat.zero_add]
  rfl

/-- A closing bracket where nothing is open stops the walk. -/
theorem walkAlong?_of_pop (hu : u.Walkable) (hmanages : settings.Manages u)
    (hnone : u.count .push = u.count .pop) (v : Word) :
    walkAlong? settings builder drawing (u ++ .pop :: v) =
      some (.error (.unmatchedPop u.length)) := by
  obtain ⟨walk, hopens, halong⟩ :=
    Walk.exists_along?_append settings builder drawing hu hmanages (.pop :: v)
  have hempty : walk.frames = #[] :=
    Array.eq_empty_of_size_eq_zero (hopens.size_frames hnone)
  have hstep : walk.step? settings builder u.length .pop =
      some (.error (.unmatchedPop u.length)) :=
    congrArg some (Walk.pop_of_empty hempty u.length)
  rw [walkAlong?, halong, Walk.along?_cons, hstep]
  rfl

/-- An opening bracket where all frames are in use stops the walk. -/
theorem walkAlong?_of_push (hu : u.Walkable) (hmanages : settings.Manages u)
    (hfull : u.count .push = u.count .pop + Limits.branchStack) (v : Word) :
    walkAlong? settings builder drawing (u ++ .push :: v) =
      some (.error (.stackOverflow u.length (Limits.branchStack + 1) Limits.branchStack)) := by
  obtain ⟨walk, hopens, halong⟩ :=
    Walk.exists_along?_append settings builder drawing hu hmanages (.push :: v)
  have hsize : walk.frames.size = Limits.branchStack := hopens.size_frames hfull
  have hstep : walk.step? settings builder u.length .push =
      some (.error (.stackOverflow u.length (Limits.branchStack + 1) Limits.branchStack)) := by
    show some (walk.push builder u.length) = _
    rw [Walk.push_of_full (by omega), hsize]
  rw [walkAlong?, halong, Walk.along?_cons, hstep]
  rfl

/-- A turn that can not be made breaks the walk off. -/
theorem walkAlong?_of_turn (hu : u.Walkable) (hmanages : settings.Manages u)
    (hwide : ¬ settings.Drawable) (turn : Direction) (v : Word) :
    walkAlong? settings builder drawing (u ++ .direction turn :: v) = none := by
  obtain ⟨walk, -, halong⟩ :=
    Walk.exists_along?_append settings builder drawing hu hmanages (.direction turn :: v)
  rw [walkAlong?, halong, Walk.along?_cons, (Walk.step?_direction _ turn walk).2 hwide]
  rfl

/-- So does a turn in front that can not be made. -/
theorem walkAlong?_of_not_manages (hu : u.Walkable) (h : ¬ settings.Manages u) (v : Word) :
    walkAlong? settings builder drawing (u ++ v) = none := by
  obtain ⟨hwide, front, turn, behind, rfl, hmanages⟩ :=
    TurtleSettings.exists_turn_of_not_manages h
  rw [List.append_assoc, List.cons_append]
  exact walkAlong?_of_turn settings builder drawing (hu.mono (List.prefix_append _ _)) hmanages
    hwide turn (behind ++ v)

/-- Along a walkable word that closes all its branches the turtle comes to the end. -/
theorem exists_walkAlong?_of_closed (hu : u.Walkable) (hmanages : settings.Manages u)
    (hclosed : u.count .push = u.count .pop) :
    ∃ result, walkAlong? settings builder drawing u = some (.ok result) := by
  obtain ⟨walk, halong, hopens⟩ := Walk.exists_along_of_walkable settings builder drawing hu
  have hempty : walk.frames = #[] :=
    Array.eq_empty_of_size_eq_zero (hopens.size_frames hclosed)
  rw [walkAlong?_of_manages settings builder drawing hmanages, walkAlong, halong, ok_bind,
    Walk.close_of_empty hempty]
  exact ⟨_, rfl⟩

/-- Along a walkable word that leaves branches open the turtle finds them open at the end. -/
theorem walkAlong?_of_unclosed {opened : Nat} (hu : u.Walkable) (hmanages : settings.Manages u)
    (hopened : u.count .push = u.count .pop + opened) (hpos : 0 < opened) :
    walkAlong? settings builder drawing u = some (.error (.unclosedBranches opened)) := by
  obtain ⟨walk, halong, hopens⟩ := Walk.exists_along_of_walkable settings builder drawing hu
  have hsize : walk.frames.size = opened := hopens.size_frames hopened
  have hopen : ¬ walk.frames = #[] := by
    intro hempty
    rw [hempty] at hsize
    exact Nat.ne_of_lt hpos hsize
  rw [walkAlong?_of_manages settings builder drawing hmanages, walkAlong, halong, ok_bind,
    Walk.close_of_ne hopen, hsize]

end

/-- What a walk along the word came to is as the counts of its brackets say, as far as its turns
can be made. -/
def Word.Decides {α : Type} (settings : TurtleSettings) (word : Word) :
    Option (Except StructuralError α) → Prop
  | some (.ok _) =>
      word.Walkable ∧ word.count .push = word.count .pop ∧ settings.Manages word
  | some (.error (.unmatchedPop index)) =>
      ∃ u v : Word, word = u ++ .pop :: v ∧ u.length = index ∧ u.Walkable ∧
        u.count .push = u.count .pop ∧ settings.Manages u
  | some (.error (.stackOverflow index depth limit)) =>
      ∃ u v : Word, word = u ++ .push :: v ∧ u.length = index ∧ u.Walkable ∧
        u.count .push = u.count .pop + Limits.branchStack ∧
        depth = Limits.branchStack + 1 ∧ limit = Limits.branchStack ∧ settings.Manages u
  | some (.error (.unclosedBranches opened)) =>
      word.Walkable ∧ word.count .push = word.count .pop + opened ∧ 0 < opened ∧
        settings.Manages word
  | none =>
      ∃ (u : Word) (turn : Direction) (v : Word), word = u ++ .direction turn :: v ∧
        u.Walkable ∧ ¬ settings.Drawable

theorem Word.decides_of_not_manages {u : Word} (hu : u.Walkable) (h : ¬ settings.Manages u)
    (drawing : σ) (v : Word) :
    Word.Decides settings (u ++ v) (walkAlong? settings builder drawing (u ++ v)) := by
  rw [walkAlong?_of_not_manages settings builder drawing hu h]
  obtain ⟨hwide, front, turn, behind, rfl, -⟩ := TurtleSettings.exists_turn_of_not_manages h
  exact ⟨front, turn, behind ++ v, by rw [List.append_assoc, List.cons_append],
    hu.mono (List.prefix_append _ _), hwide⟩

theorem Word.decides_walkAlong? (word : Word) (drawing : σ) :
    word.Decides settings (walkAlong? settings builder drawing word) := by
  rcases word.walkable_cases with hword | ⟨u, v, rfl, hu, hnone⟩ | ⟨u, v, rfl, hu, hfull⟩
  · by_cases hmanages : settings.Manages word
    · obtain ⟨hle, -⟩ := hword word (List.prefix_refl _)
      obtain ⟨opened, hopened⟩ := Nat.exists_eq_add_of_le hle
      rcases Nat.eq_zero_or_pos opened with rfl | hpos
      · obtain ⟨result, hwalk⟩ :=
          exists_walkAlong?_of_closed settings builder drawing hword hmanages hopened
        rw [hwalk]
        exact ⟨hword, hopened, hmanages⟩
      · rw [walkAlong?_of_unclosed settings builder drawing hword hmanages hopened hpos]
        exact ⟨hword, hopened, hpos, hmanages⟩
    · have hbroken := Word.decides_of_not_manages settings builder hword hmanages drawing []
      rwa [List.append_nil] at hbroken
  · by_cases hmanages : settings.Manages u
    · rw [walkAlong?_of_pop settings builder drawing hu hmanages hnone]
      exact ⟨u, v, rfl, rfl, hu, hnone, hmanages⟩
    · exact Word.decides_of_not_manages settings builder hu hmanages drawing (.pop :: v)
  · by_cases hmanages : settings.Manages u
    · rw [walkAlong?_of_push settings builder drawing hu hmanages hfull]
      exact ⟨u, v, rfl, rfl, hu, hfull, rfl, rfl, hmanages⟩
    · exact Word.decides_of_not_manages settings builder hu hmanages drawing (.push :: v)

/-- The counts of brackets decide what a walk comes to, unless it comes to a turn that can not be
made. It comes to its end if and only if in every prefix of the word no branch is closed that was
not opened, and no more are open than frames fit, and none is open at the end. Otherwise the first
token at which that fails is reported: a closing bracket where no branch is open, or an opening one
where all frames are in use. Without such a token it is the number of branches that are open at the
end. Where offsets can not be drawn, the first turn in front of all that breaks the walk off, but
they can for every fraction in `[0, 1]`. -/
theorem walkAlong?_exact (drawing : σ) (word : Word) :
    let run := walkAlong? settings builder drawing word
    ((∃ result, run = some (.ok result)) ↔
      (∀ u : Word, u <+: word → u.count .pop ≤ u.count .push ∧
        u.count .push ≤ u.count .pop + Limits.branchStack) ∧
      word.count .push = word.count .pop ∧ settings.Manages word) ∧
    (∀ index, run = some (.error (.unmatchedPop index)) ↔
      ∃ u v : Word, word = u ++ .pop :: v ∧ u.length = index ∧ u.Walkable ∧
        u.count .push = u.count .pop ∧ settings.Manages u) ∧
    (∀ index depth limit,
      run = some (.error (.stackOverflow index depth limit)) ↔
        ∃ u v : Word, word = u ++ .push :: v ∧ u.length = index ∧ u.Walkable ∧
          u.count .push = u.count .pop + Limits.branchStack ∧
          depth = Limits.branchStack + 1 ∧ limit = Limits.branchStack ∧ settings.Manages u) ∧
    (∀ opened, run = some (.error (.unclosedBranches opened)) ↔
      word.Walkable ∧ word.count .push = word.count .pop + opened ∧ 0 < opened ∧
        settings.Manages word) ∧
    (run = none ↔
      ∃ (u : Word) (turn : Direction) (v : Word), word = u ++ .direction turn :: v ∧
        u.Walkable ∧ ¬ settings.Drawable) ∧
    (0.0 ≤ settings.jitterFraction → settings.jitterFraction ≤ 1.0 → settings.Drawable) := by
  intro run
  have hdecides : word.Decides settings run := word.decides_walkAlong? settings builder drawing
  refine ⟨⟨?_, ?_⟩, fun index => ⟨?_, ?_⟩, fun index depth limit => ⟨?_, ?_⟩,
    fun opened => ⟨?_, ?_⟩, ⟨?_, ?_⟩, TurtleSettings.drawable_of_le_one⟩
  · rintro ⟨result, hwalk⟩
    rw [hwalk] at hdecides
    exact hdecides
  · rintro ⟨hwalkable, hclosed, hmanages⟩
    exact exists_walkAlong?_of_closed settings builder drawing hwalkable hmanages hclosed
  · intro hwalk
    rw [hwalk] at hdecides
    exact hdecides
  · rintro ⟨u, v, rfl, rfl, hu, hnone, hmanages⟩
    exact walkAlong?_of_pop settings builder drawing hu hmanages hnone v
  · intro hwalk
    rw [hwalk] at hdecides
    exact hdecides
  · rintro ⟨u, v, rfl, rfl, hu, hfull, rfl, rfl, hmanages⟩
    exact walkAlong?_of_push settings builder drawing hu hmanages hfull v
  · intro hwalk
    rw [hwalk] at hdecides
    exact hdecides
  · rintro ⟨hwalkable, hopened, hpos, hmanages⟩
    exact walkAlong?_of_unclosed settings builder drawing hwalkable hmanages hopened hpos
  · intro hwalk
    rw [hwalk] at hdecides
    exact hdecides
  · rintro ⟨u, turn, v, rfl, hu, hwide⟩
    by_cases hmanages : settings.Manages u
    · exact walkAlong?_of_turn settings builder drawing hu hmanages hwide turn v
    · exact walkAlong?_of_not_manages settings builder drawing hu hmanages (.direction turn :: v)

/-- An infinite interval can not be drawn from, so that a turn in a branch that is closed again
breaks the walk off. -/
theorem walkAlong?_unbounded :
    let settings : TurtleSettings :=
      { step := 1.0, angles := .uniform 0.5, jitterFraction := 1.0 / 0.0 }
    let word : Word := [.push, .direction ⟨.yaw, true⟩, .pop]
    (∀ u : Word, u <+: word → u.count .pop ≤ u.count .push ∧
      u.count .push ≤ u.count .pop + Limits.branchStack) ∧
    word.count .push = word.count .pop ∧
    ¬ ∃ result, walkAlong? settings CurveBuilder.recorder #[] word = some (.ok result) := by
  intro settings word
  have hopened : Word.Walkable [.push] :=
    Word.walkable_concat_iff.2 ⟨Word.walkable_nil, by decide, by decide⟩
  have hturned : Word.Walkable [.push, .direction ⟨.yaw, true⟩] :=
    Word.walkable_concat_iff.2 ⟨hopened, by decide, by decide⟩
  have hword : word.Walkable := Word.walkable_concat_iff.2 ⟨hturned, by decide, by decide⟩
  have hwide : ¬ settings.Drawable := by
    intro h
    have hbound : settings.jitterBound > 0.0 := by decide +kernel
    have hinfinite : (RandomStream.firstScale settings.jitterBound).isFinite = false := by
      decide +kernel
    rw [h hbound] at hinfinite
    cases hinfinite
  refine ⟨hword, rfl, ?_⟩
  rintro ⟨result, hwalk⟩
  have hmanages : settings.Manages [.push] := .inr fun turn => by simp
  have hbroken : walkAlong? settings CurveBuilder.recorder #[] word = none :=
    walkAlong?_of_turn settings CurveBuilder.recorder #[] hopened hmanages hwide _ [.pop]
  rw [hbroken] at hwalk
  cases hwalk

end Lindenmayer
