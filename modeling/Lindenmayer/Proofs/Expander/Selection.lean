import Lindenmayer.Proofs.Double.Sums
import Lindenmayer.Proofs.Expander.Choosing
import Lindenmayer.Proofs.Expander.Rewriting
import Mathlib.Data.List.Pairwise

/-!
# Which alternative a draw selects

A draw selects the first alternative at which the running sum of probabilities reaches it, so what
is known of running sums is known of the selection.

* Alternatives are told apart by their places, as two of them may be the same rule
  (`Alternatives.place?`).
* A place is selected if its running sum reaches the draw and none before it does
  (`place?_eq_some_iff`); where some sum reaches the draw, a place up to it is selected
  (`exists_place_le`).
* No running sum is above the last (`Rule.runningSums_le_total`), and the sum that is shown of a
  symbol compares as the last (`ProductionTable.probabilitySum_lt_iff`).
* A rule of probability zero does not add to the sum before it (`Rule.runningSums_le_of_zero`).
-/

namespace Lindenmayer

section FirstReaching

variable {α β : Type} [Add α] [LE α] [DecidableLE α] {weight : β → α} {draw sum : α}
  {items : List β}

/-- Items are chosen by their weights, whatever else comes with them. -/
theorem firstReaching_map {γ : Type} (f : γ → β) (items : List γ) :
    firstReaching weight draw sum (items.map f) =
      (firstReaching (fun item => weight (f item)) draw sum items).map f := by
  induction items generalizing sum with
  | nil => rfl
  | cons head rest ih =>
      by_cases hreached : draw ≤ sum + weight (f head)
      · simp [firstReaching, hreached]
      · simp [firstReaching, hreached, ih]

/-- The place of the chosen item is that of the first sum that reaches the draw. -/
theorem firstReaching_zipIdx (first : Nat) :
    (firstReaching (fun entry => weight entry.1) draw sum (items.zipIdx first)).map Prod.snd =
      ((((items.map weight).scanl (· + ·) sum).tail).findIdx? (draw ≤ ·)).map (first + ·) := by
  induction items generalizing first sum with
  | nil => rfl
  | cons head rest ih =>
      rw [List.map_cons, List.scanl_cons, List.tail_cons, scanl_eq_cons, List.zipIdx_cons,
        List.findIdx?_cons]
      by_cases hreached : draw ≤ sum + weight head
      · simp [firstReaching, hreached]
      · simp [firstReaching, hreached, ih, Function.comp_def, Nat.add_assoc, Nat.add_comm 1]

end FirstReaching

namespace Rule

theorem length_runningSums (rules : List Rule) : (runningSums rules).length = rules.length := by
  simp [runningSums]

theorem getElem?_runningSums {rules : List Rule} {place : Nat} {total : Float} :
    (runningSums rules)[place]? = some total ↔ place < rules.length ∧
      ((rules.map probability).take (place + 1)).foldl (· + ·) 0.0 = total := by
  rw [List.getElem?_eq_some_iff, ← length_runningSums rules, ← exists_prop]
  simp [runningSums, List.getElem_scanl]

/-- No running sum is above the last. -/
theorem runningSums_le_total {rules : List Rule} (h : ∀ rule ∈ rules, 0.0 ≤ rule.probability)
    {sum : Float} (hsum : sum ∈ runningSums rules) :
    sum ≤ (rules.map probability).foldl (· + ·) 0.0 := by
  have hterms : ∀ term ∈ rules.map probability, 0.0 ≤ term := List.forall_mem_map.2 h
  have hzero : (0.0 : Float) ≤ 0.0 := by decide +kernel
  have hlast := Double.le_refl_of_nonneg (Double.nonneg_foldl hterms hzero)
  have hle := (Double.pairwise_scanl hterms hzero).rel_getLast_of_rel_getLast_getLast
    (List.mem_of_mem_tail hsum)
  simp only [List.getLast_scanl] at hle
  exact hle hlast

/-- A rule of probability zero does not add to the sum before it. -/
theorem runningSums_le_of_zero {rules : List Rule} (h : ∀ rule ∈ rules, 0.0 ≤ rule.probability)
    {place : Nat} {rule : Rule} (hrule : rules[place]? = some rule)
    (hzero : (rule.probability == 0.0) = true) {total : Float}
    (htotal : (runningSums rules)[place]? = some total) :
    total ≤ ((rules.map probability).take place).foldl (· + ·) 0.0 := by
  obtain ⟨-, rfl⟩ := getElem?_runningSums.1 htotal
  have hprobability : (rules.map probability)[place]? = some rule.probability := by
    rw [List.getElem?_map, hrule, Option.map_some]
  have hbefore : ∀ term ∈ (rules.map probability).take place, 0.0 ≤ term :=
    fun term hterm => List.forall_mem_map.2 h term (List.mem_of_mem_take hterm)
  rw [List.take_add_one, hprobability, Option.toList_some, List.foldl_append]
  exact Double.add_le_of_zero (Double.nonneg_foldl hbefore (by decide +kernel)) hzero

end Rule

namespace Alternatives

/-- The place of the alternative that a draw selects. -/
def place? (alternatives : Alternatives) (draw : Float) : Option Nat :=
  (firstReaching (fun entry => entry.1.probability) draw 0.0 alternatives.toList.zipIdx).map
    Prod.snd

variable {alternatives : Alternatives} {draw : Float} {place : Nat}

theorem place?_eq_findIdx? (alternatives : Alternatives) (draw : Float) :
    alternatives.place? draw =
      (Rule.runningSums alternatives.toList).findIdx? (draw ≤ ·) := by
  show (firstReaching (fun entry => Rule.probability entry.1) draw 0.0
    (alternatives.toList.zipIdx 0)).map Prod.snd = _
  rw [firstReaching_zipIdx]
  simp [Rule.runningSums]

/-- A place is selected if its running sum reaches the draw and none before it does. -/
theorem place?_eq_some_iff :
    alternatives.place? draw = some place ↔
      (∃ total, (Rule.runningSums alternatives.toList)[place]? = some total ∧ draw ≤ total) ∧
        ∀ before < place, ∀ total,
          (Rule.runningSums alternatives.toList)[before]? = some total → ¬ draw ≤ total := by
  rw [place?_eq_findIdx?, List.findIdx?_eq_some_iff_getElem]
  constructor
  · rintro ⟨hplace, hle, hbefore⟩
    refine ⟨⟨_, List.getElem?_eq_getElem hplace, by simpa using hle⟩, ?_⟩
    intro before hlt total htotal
    obtain ⟨-, rfl⟩ := List.getElem?_eq_some_iff.1 htotal
    simpa using hbefore before hlt
  · rintro ⟨⟨total, htotal, hle⟩, hbefore⟩
    obtain ⟨hplace, rfl⟩ := List.getElem?_eq_some_iff.1 htotal
    refine ⟨hplace, by simpa using hle, ?_⟩
    intro before hlt
    simpa using hbefore before hlt _ (List.getElem?_eq_getElem (Nat.lt_trans hlt hplace))

theorem exists_place_le {total : Float}
    (htotal : (Rule.runningSums alternatives.toList)[place]? = some total) (hle : draw ≤ total) :
    ∃ chosen ∈ alternatives.place? draw, chosen ≤ place := by
  obtain ⟨hplace, rfl⟩ := List.getElem?_eq_some_iff.1 htotal
  cases hchosen : alternatives.place? draw with
  | none =>
      rw [place?_eq_findIdx?, List.findIdx?_eq_none_iff] at hchosen
      have hnot := hchosen _ (List.getElem_mem hplace)
      simp [hle] at hnot
  | some chosen =>
      refine ⟨chosen, rfl, Nat.le_of_not_lt fun hlt => ?_⟩
      exact (place?_eq_some_iff.1 hchosen).2 place hlt _ htotal hle

/-- The alternative that a draw chooses is the one at the place that it selects. -/
theorem choose_eq_bind (alternatives : Alternatives) (draw : Float) :
    alternatives.choose draw = (alternatives.place? draw).bind (alternatives.toList[·]?) := by
  have hchoose : firstReaching Rule.probability draw 0.0 (alternatives.toList.zipIdx.map Prod.fst) =
      _ := firstReaching_map Prod.fst alternatives.toList.zipIdx
  rw [List.zipIdx_map_fst] at hchoose
  unfold choose place?
  rw [hchoose]
  cases hchosen : firstReaching (fun entry => Rule.probability entry.1) draw 0.0
      alternatives.toList.zipIdx with
  | none => rfl
  | some entry =>
      have hmem := mem_of_firstReaching hchosen
      exact (List.mem_zipIdx_iff_getElem?.1 hmem).symm

theorem lt_length_of_place? (h : alternatives.place? draw = some place) :
    place < alternatives.toList.length := by
  obtain ⟨⟨total, htotal, -⟩, -⟩ := place?_eq_some_iff.1 h
  exact (Rule.getElem?_runningSums.1 htotal).1

/-- A draw chooses nothing exactly if it is above the last running sum. -/
theorem choose_eq_none_iff (h : ∀ rule ∈ alternatives.toList, 0.0 ≤ rule.probability) :
    alternatives.choose draw = none ↔
      ¬ draw ≤ (alternatives.toList.map Rule.probability).foldl (· + ·) 0.0 := by
  have hlast : ((alternatives.toList.map Rule.probability).foldl (· + ·) 0.0) ∈
      Rule.runningSums alternatives.toList := by
    simp [Rule.runningSums, toList, List.mem_of_getLast? List.getLast?_scanl]
  unfold choose
  rw [firstReaching_eq_none_iff]
  constructor
  · intro hnone
    exact hnone _ hlast
  · intro hnot total htotal hle
    exact hnot (Double.le_trans hle (Rule.runningSums_le_total h htotal))

end Alternatives

/-- The sum that is shown of a symbol compares as the last of the running sums. -/
theorem ProductionTable.probabilitySum_lt_iff {table : ProductionTable} {symbol : Char}
    {alternatives : Alternatives} (hget : table.get? symbol = some alternatives)
    (h : ∀ rule ∈ alternatives.toList, 0.0 ≤ rule.probability) (draw : Float) :
    table.probabilitySum symbol < draw ↔
      (alternatives.toList.map Rule.probability).foldl (· + ·) 0.0 < draw := by
  have hsum : table.probabilitySum symbol =
      (alternatives.toList.map Rule.probability).foldl (· + ·) (-0.0) := by
    simp only [probabilitySum, hget, List.foldl_map]
  have halike := Double.alike_foldl (List.forall_mem_map.2 h) (x := -0.0) (y := 0.0)
    (.inr ⟨.negative, .positive, rfl, rfl⟩)
  rw [hsum, Double.lt_iff, Double.lt_iff, Double.lt_iff_place, Double.lt_iff_place,
    halike.place_eq]

namespace Alternatives

/-- An alternative of probability zero adds nothing that a draw could reach, but for the first and a
draw of zero. -/
theorem eq_zero_of_place? {alternatives : Alternatives}
    (h : ∀ rule ∈ alternatives.toList, 0.0 ≤ rule.probability) {draw : Float} (hdraw : 0.0 ≤ draw)
    {place : Nat} (hplace : alternatives.place? draw = some place) {rule : Rule}
    (hrule : alternatives.toList[place]? = some rule) (hzero : (rule.probability == 0.0) = true) :
    place = 0 ∧ (draw == 0.0) = true := by
  obtain ⟨⟨total, htotal, hreached⟩, hbefore⟩ := place?_eq_some_iff.1 hplace
  have hle := Double.le_trans hreached (Rule.runningSums_le_of_zero h hrule hzero htotal)
  cases place with
  | zero => exact ⟨rfl, Double.beq_zero_of_le hdraw hle⟩
  | succ place =>
      -- the sum before it reaches the draw already
      have hlt := Nat.lt_of_succ_lt (Rule.getElem?_runningSums.1 htotal).1
      have hsum := Rule.getElem?_runningSums.2 ⟨hlt, rfl⟩
      exact absurd hle (hbefore place (Nat.lt_succ_self place) _ hsum)

/-- What a draw selects among alternatives, told by their places.

A larger draw selects the same place or a later one, or none. None is selected exactly if the draw
is above the sum that is shown of the symbol. An alternative of probability zero is selected only in
the first place, and by a draw of zero. Where a running sum reaches one, no draw up to one selects a
later place or none. -/
theorem selection (h : ∀ rule ∈ alternatives.toList, 0.0 ≤ rule.probability) :
    (∀ draw, alternatives.choose draw =
      (alternatives.place? draw).bind (alternatives.toList[·]?)) ∧
    (∀ draw, ∀ place ∈ alternatives.place? draw, place < alternatives.toList.length) ∧
    (∀ draw draw', draw ≤ draw' → ∀ later ∈ alternatives.place? draw',
      ∃ earlier ∈ alternatives.place? draw, earlier ≤ later) ∧
    (∀ (table : ProductionTable) (symbol : Char), table.get? symbol = some alternatives →
      ∀ draw, 0.0 ≤ draw →
        (alternatives.choose draw = none ↔ table.probabilitySum symbol < draw)) ∧
    (∀ draw, 0.0 ≤ draw → ∀ place ∈ alternatives.place? draw,
      ∀ rule ∈ alternatives.toList[place]?, (rule.probability == 0.0) = true →
        place = 0 ∧ (draw == 0.0) = true) ∧
    ∀ (place : Nat), ∀ total ∈ (Rule.runningSums alternatives.toList)[place]?, 1.0 ≤ total →
      ∀ draw, draw ≤ 1.0 → alternatives.choose draw ≠ none ∧
        ∃ chosen ∈ alternatives.place? draw, chosen ≤ place := by
  refine ⟨alternatives.choose_eq_bind, ?_, ?_, ?_, ?_, ?_⟩
  · intro draw place hplace
    exact lt_length_of_place? hplace
  · intro draw draw' hle later hlater
    obtain ⟨⟨total, htotal, hreached⟩, -⟩ := place?_eq_some_iff.1 hlater
    exact exists_place_le htotal (Double.le_trans hle hreached)
  · intro table symbol hget draw hdraw
    have hsum : 0.0 ≤ (alternatives.toList.map Rule.probability).foldl (· + ·) 0.0 :=
      Double.nonneg_foldl (List.forall_mem_map.2 h) (by decide +kernel)
    rw [choose_eq_none_iff h, ProductionTable.probabilitySum_lt_iff hget h,
      Double.not_le_iff hdraw hsum]
  · intro draw hdraw place hplace rule hrule hzero
    exact eq_zero_of_place? h hdraw hplace hrule hzero
  · intro place total htotal hone draw hdraw
    obtain ⟨chosen, hchosen, hle⟩ := exists_place_le htotal (Double.le_trans hdraw hone)
    refine ⟨?_, chosen, hchosen, hle⟩
    rw [choose_eq_bind, hchosen]
    simpa using lt_length_of_place? hchosen

/-- Four alternatives: the first has probability zero, and with the third the sum reaches one. -/
def crowded : Alternatives where
  first := ⟨'F', [], 0.0⟩
  others := [⟨'F', [.symbol 'F'], 0.25⟩, ⟨'F', [.push, .pop], 0.75⟩, ⟨'F', [.symbol 'X'], 0.5⟩]

/-- A draw between the second running sum and the third selects neither the first alternative nor
the last. -/
theorem selection_crowded :
    (∀ draw, 0.0 ≤ draw → (crowded.choose draw = none ↔
      (ProductionTable.ofRules crowded.toList).probabilitySum 'F' < draw)) ∧
    (∀ place ∈ crowded.place? 0.5, place ≠ 0) ∧
    crowded.choose 0.5 ≠ none ∧ ∃ chosen ∈ crowded.place? 0.5, chosen ≤ 2 := by
  have hnonneg : ∀ rule ∈ crowded.toList, 0.0 ≤ rule.probability := by decide +kernel
  obtain ⟨-, -, -, hnone, hzero, hone⟩ := selection hnonneg
  have hdraw : (0.0 : Float) ≤ 0.5 := by decide +kernel
  refine ⟨hnone (.ofRules crowded.toList) 'F' rfl, ?_, ?_⟩
  · rintro place hplace rfl
    have hsame := (hzero 0.5 hdraw 0 hplace crowded.first rfl (by decide +kernel)).2
    exact absurd hsame (by decide +kernel)
  · exact hone 2 _ (Rule.getElem?_runningSums.2 ⟨by decide, rfl⟩) (by decide +kernel) 0.5
      (by decide +kernel)

-- a draw that a running sum just reaches is not left to the next alternative
example : crowded.place? 0.25 = some 1 := by decide +kernel

end Alternatives

end Lindenmayer
