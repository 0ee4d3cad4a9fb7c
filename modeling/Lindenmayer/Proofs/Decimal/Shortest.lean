import Lindenmayer.Decimal.Shortest
import Lindenmayer.Proofs.Decimal.Nearest
import Mathlib.Tactic.Ring

/-!
# Shortest decimals read back

The decimal that is chosen for a double rounds to it (`Magnitude.rounds_shortest`). Each grid is
searched for decimals that do (`readsBack_iff`), and the finest grid that is looked at is so fine
that the decimal right below the double is one of them (`rounds_of_fine`).
-/

namespace Lindenmayer.Decimal.Magnitude

variable {v : Magnitude} {grid : ℤ} {tie : Tie}

/-! ## Grids -/

theorem gridDen_pos (v : Magnitude) (grid : ℤ) : 0 < v.gridDen grid :=
  Nat.mul_pos (Nat.mul_pos (by decide) (pow2_pos _)) (pow10_pos _)

theorem gridNum_div (v : Magnitude) (grid : ℤ) (quarters : ℕ) :
    (v.gridNum grid quarters : ℚ) / v.gridDen grid =
      quarters / 4 * 2 ^ v.exponent / 10 ^ grid := by
  have hne : ∀ n, (pow2 n : ℚ) ≠ 0 := fun n => Nat.cast_ne_zero.2 (pow2_pos n).ne'
  have hne' : ∀ n, (pow10 n : ℚ) ≠ 0 := fun n => Nat.cast_ne_zero.2 (pow10_pos n).ne'
  have htwo := hne (-v.exponent)
  have hten := hne' grid
  have hten' := hne' (-grid)
  rw [← pow2_div, ← pow10_div, gridNum, gridDen]
  push_cast
  field_simp

theorem gridNum_le_iff {quarters d : ℕ} :
    v.gridNum grid quarters ≤ d * v.gridDen grid ↔
      (quarters / 4 * 2 ^ v.exponent : ℚ) ≤ d * 10 ^ grid := by
  have hden : (0 : ℚ) < v.gridDen grid := Nat.cast_pos.2 (v.gridDen_pos grid)
  have hten := ten_zpow_pos grid
  rw [← Nat.cast_le (α := ℚ), Nat.cast_mul, ← div_le_iff₀ hden, gridNum_div, div_le_iff₀ hten]

theorem le_gridNum_iff {quarters d : ℕ} :
    d * v.gridDen grid ≤ v.gridNum grid quarters ↔
      (d * 10 ^ grid : ℚ) ≤ quarters / 4 * 2 ^ v.exponent := by
  have hden : (0 : ℚ) < v.gridDen grid := Nat.cast_pos.2 (v.gridDen_pos grid)
  have hten := ten_zpow_pos grid
  rw [← Nat.cast_le (α := ℚ), Nat.cast_mul, ← le_div_iff₀ hden, gridNum_div, le_div_iff₀ hten]

theorem gridNum_lt_iff {quarters d : ℕ} :
    v.gridNum grid quarters < d * v.gridDen grid ↔
      (quarters / 4 * 2 ^ v.exponent : ℚ) < d * 10 ^ grid := by
  rw [← not_le, le_gridNum_iff, not_le]

theorem lt_gridNum_iff {quarters d : ℕ} :
    d * v.gridDen grid < v.gridNum grid quarters ↔
      (d * 10 ^ grid : ℚ) < quarters / 4 * 2 ^ v.exponent := by
  rw [← not_le, gridNum_le_iff, not_le]

theorem readsBack_iff (hm : 0 < v.mantissa) {d : ℕ} :
    v.readsBack grid d = true ↔ v.Rounds (d * 10 ^ grid) := by
  have hlow : ((4 * v.mantissa - if v.narrow then 1 else 2 : ℕ) : ℚ) / 4 * 2 ^ v.exponent =
      v.lowEnd := by
    rw [lowEnd, Nat.cast_sub (by split <;> omega)]
    split <;> push_cast <;> ring
  have hhigh : ((4 * v.mantissa + 2 : ℕ) : ℚ) / 4 * 2 ^ v.exponent = v.highEnd := by
    rw [highEnd]
    push_cast
    ring
  unfold readsBack Rounds
  simp only
  split
  · rw [Bool.and_eq_true, decide_eq_true_iff, decide_eq_true_iff, gridNum_le_iff,
      le_gridNum_iff, hlow, hhigh]
  · rw [Bool.and_eq_true, decide_eq_true_iff, decide_eq_true_iff, gridNum_lt_iff,
      lt_gridNum_iff, hlow, hhigh]

/-! ## The decimal of a grid -/

theorem roundDiv_cases (tie : Tie) (num den : ℕ) :
    roundDiv tie num den = num / den ∨ roundDiv tie num den = num / den + 1 := by
  unfold roundDiv
  simp only
  split
  · exact .inl rfl
  split
  · exact .inr rfl
  cases tie with
  | up => exact .inr rfl
  | toEven =>
      simp only
      split
      · exact .inl rfl
      · exact .inr rfl

/-- What a grid offers rounds to the magnitude. -/
theorem rounds_of_onGrid? (hm : 0 < v.mantissa) {short : Digits}
    (h : v.onGrid? tie grid = some short) :
    v.Rounds (short.digits * 10 ^ short.exponent) := by
  unfold onGrid? at h
  simp only at h
  split at h
  · next hlow hhigh =>
    cases h
    rcases roundDiv_cases tie (v.gridNum grid (4 * v.mantissa)) (v.gridDen grid) with hd | hd
    · rw [hd]
      exact (readsBack_iff hm).1 hlow
    · rw [hd]
      exact (readsBack_iff hm).1 hhigh
  · next hlow _ =>
    cases h
    exact (readsBack_iff hm).1 hlow
  · next _ hhigh =>
    cases h
    exact (readsBack_iff hm).1 hhigh
  · cases h

/-- On a fine grid the decimal right below the double rounds to it. -/
theorem rounds_of_fine (hfine : (10 : ℚ) ^ grid ≤ 2 ^ (v.exponent - 2)) :
    v.Rounds ((v.gridNum grid (4 * v.mantissa) / v.gridDen grid : ℕ) * 10 ^ grid) := by
  obtain ⟨low, hlow⟩ : ∃ d, v.gridNum grid (4 * v.mantissa) / v.gridDen grid = d := ⟨_, rfl⟩
  rw [hlow]
  have hpow := two_zpow_pos v.exponent
  have hquarter := two_zpow_eq_four_mul v.exponent
  have hexact : ((4 * v.mantissa : ℕ) : ℚ) / 4 * 2 ^ v.exponent = v.mantissa * 2 ^ v.exponent := by
    push_cast
    ring
  have hbelow : (low * 10 ^ grid : ℚ) ≤ v.mantissa * 2 ^ v.exponent := by
    rw [← hexact, ← le_gridNum_iff, ← hlow]
    exact Nat.div_mul_le_self _ _
  have habove : (v.mantissa * 2 ^ v.exponent : ℚ) < (low + 1) * 10 ^ grid := by
    have hnext : v.gridNum grid (4 * v.mantissa) < (low + 1) * v.gridDen grid := by
      rw [Nat.add_mul, Nat.one_mul, ← hlow]
      exact Nat.lt_div_mul_add (v.gridDen_pos grid)
    have := gridNum_lt_iff.1 hnext
    rw [hexact] at this
    exact_mod_cast this
  have hlowEnd : v.lowEnd < low * 10 ^ grid := by
    have hends : v.lowEnd ≤ (v.mantissa - 1 / 4) * 2 ^ v.exponent := by
      unfold lowEnd
      gcongr
      split <;> norm_num
    linarith
  have hhighEnd : (low * 10 ^ grid : ℚ) < v.highEnd := by
    unfold highEnd
    linarith
  unfold Rounds
  split
  · exact ⟨hlowEnd.le, hhighEnd.le⟩
  · exact ⟨hlowEnd, hhighEnd⟩

theorem isSome_onGrid? (hm : 0 < v.mantissa)
    (hfine : (10 : ℚ) ^ grid ≤ 2 ^ (v.exponent - 2)) : (v.onGrid? tie grid).isSome := by
  have hlow := (readsBack_iff hm).2 (rounds_of_fine hfine)
  unfold onGrid?
  simp only [hlow]
  cases v.readsBack grid (v.gridNum grid (4 * v.mantissa) / v.gridDen grid + 1) <;> rfl

/-- The last grid that is looked at is fine. -/
theorem fine_topGrid (hv : v.IsDouble) (hm : 0 < v.mantissa) :
    (10 : ℚ) ^ (v.topGrid - (21 : ℕ)) ≤ 2 ^ (v.exponent - 2) := by
  have hlog : v.mantissa.log2 < 53 := (Nat.log2_lt hm.ne').2 hv.canonical.bits
  have hleast := hv.canonical.least
  have hmost := hv.most
  unfold topGrid
  rcases le_total 0 (((v.mantissa.log2 : ℤ) + v.exponent) * 1233 / 4096 + 2 - (21 : ℕ)) with h | h
  · exact ten_zpow_le_of_nonneg h (by omega)
  · exact ten_zpow_le_of_nonpos h (by omega)

/-- The shortest decimal rounds to the magnitude. -/
theorem rounds_shortest (hv : v.IsDouble) (hm : 0 < v.mantissa) (tie : Tie) :
    v.Rounds ((v.shortest tie).digits * 10 ^ (v.shortest tie).exponent) := by
  have hfound : ((List.range 22).findSome?
      fun i : ℕ => v.onGrid? tie (v.topGrid - i)).isSome := by
    rw [List.findSome?_isSome_iff]
    exact ⟨21, by decide, isSome_onGrid? hm (fine_topGrid hv hm)⟩
  obtain ⟨short, hshort⟩ := Option.isSome_iff_exists.1 hfound
  obtain ⟨i, -, hi⟩ := List.exists_of_findSome?_eq_some hshort
  rw [shortest, hshort]
  exact rounds_of_onGrid? hm hi

end Lindenmayer.Decimal.Magnitude
