import Lindenmayer.Proofs.Double.Bits
import Mathlib.Algebra.Order.Field.Basic
import Mathlib.Algebra.Order.Field.Power
import Mathlib.Algebra.Order.Ring.Unbundled.Rat
import Mathlib.Tactic.FieldSimp
import Mathlib.Tactic.Linarith

/-!
# The nearest double

`nearest` puts together the double nearest to a ratio. The numbers that round to a double make up
an interval around it (`Magnitude.Rounds`), and of each of them the nearest double is that one
(`unpack_nearest`).
-/

namespace Lindenmayer.Decimal

/-! ## Powers as ratios -/

theorem pow_div_pow_neg {b : ℕ} (hb : b ≠ 0) (n : ℤ) :
    ((Nat.pow b n.toNat : ℕ) : ℚ) / (Nat.pow b (-n).toNat : ℕ) = (b : ℚ) ^ n := by
  have hne : (b : ℚ) ≠ 0 := Nat.cast_ne_zero.2 hb
  simp only [Nat.pow_eq, Nat.cast_pow]
  rw [← zpow_natCast, ← zpow_natCast, ← zpow_sub₀ hne]
  congr 1
  omega

theorem pow2_div (n : ℤ) : (pow2 n : ℚ) / pow2 (-n) = 2 ^ n :=
  pow_div_pow_neg (by decide) n

theorem pow10_div (n : ℤ) : (pow10 n : ℚ) / pow10 (-n) = 10 ^ n :=
  pow_div_pow_neg (by decide) n

theorem pow2_pos (n : ℤ) : 0 < pow2 n := Nat.pow_pos (by decide)

theorem pow10_pos (n : ℤ) : 0 < pow10 n := Nat.pow_pos (by decide)

/-- A ratio in units of a power of two. -/
theorem scaled_eq (num den : ℕ) (f : ℤ) :
    ((num * pow2 (-f) : ℕ) : ℚ) / (den * pow2 f : ℕ) = (num / den : ℚ) / 2 ^ f := by
  have hone : (pow2 f : ℚ) ≠ 0 := Nat.cast_ne_zero.2 (pow2_pos f).ne'
  have hother : (pow2 (-f) : ℚ) ≠ 0 := Nat.cast_ne_zero.2 (pow2_pos (-f)).ne'
  rw [← pow2_div f]
  push_cast
  field_simp

theorem two_zpow_pos (k : ℤ) : (0 : ℚ) < 2 ^ k := zpow_pos (by norm_num) k

theorem ten_zpow_pos (k : ℤ) : (0 : ℚ) < 10 ^ k := zpow_pos (by norm_num) k

/-! ## Powers of ten and of two -/

/-- Powers of ten and of two compare as they do when both are raised to the `p`th. -/
theorem ten_zpow_le_of_scaled {p n : ℕ} {g k : ℤ} (hp : p ≠ 0)
    (hbase : ((10 : ℚ) ^ p) ^ g ≤ (2 ^ n) ^ g) (h : n * g ≤ p * k) : (10 : ℚ) ^ g ≤ 2 ^ k := by
  refine le_of_pow_le_pow_left₀ hp (zpow_nonneg (by norm_num) _) ?_
  calc ((10 : ℚ) ^ g) ^ p = (10 ^ p) ^ g := by
        rw [← zpow_natCast, ← zpow_natCast, ← zpow_mul, ← zpow_mul, mul_comm]
    _ ≤ (2 ^ n) ^ g := hbase
    _ = 2 ^ (n * g : ℤ) := by rw [zpow_mul, zpow_natCast]
    _ ≤ 2 ^ (k * p : ℤ) := zpow_le_zpow_right₀ (by norm_num) (by rwa [mul_comm k])
    _ = (2 ^ k) ^ p := by rw [zpow_mul, zpow_natCast]

theorem ten_zpow_le_of_nonneg {g k : ℤ} (hg : 0 ≤ g) (h : 10 * g ≤ 3 * k) :
    (10 : ℚ) ^ g ≤ 2 ^ k :=
  ten_zpow_le_of_scaled (p := 3) (n := 10) (by decide)
    (zpow_le_zpow_left₀ hg (by norm_num) (by norm_num)) h

theorem ten_zpow_le_of_nonpos {g k : ℤ} (hg : g ≤ 0) (h : 93 * g ≤ 28 * k) :
    (10 : ℚ) ^ g ≤ 2 ^ k := by
  have hinv : ((2 : ℚ) ^ 93) ^ (-g) ≤ (10 ^ 28) ^ (-g) :=
    zpow_le_zpow_left₀ (by omega) (by norm_num) (by norm_num)
  rw [zpow_neg, zpow_neg,
    inv_le_inv₀ (zpow_pos (by norm_num) _) (zpow_pos (by norm_num) _)] at hinv
  exact ten_zpow_le_of_scaled (p := 28) (n := 93) (by decide) hinv h

theorem two_zpow_le_ten_zpow {g k : ℤ} (hg : 0 ≤ g) (h : k ≤ 3 * g) : (2 : ℚ) ^ k ≤ 10 ^ g :=
  calc (2 : ℚ) ^ k ≤ 2 ^ (3 * g) := zpow_le_zpow_right₀ (by norm_num) h
    _ = 8 ^ g := by rw [zpow_mul]; norm_num
    _ ≤ 10 ^ g := zpow_le_zpow_left₀ hg (by norm_num) (by norm_num)

theorem two_zpow_add (e : ℤ) (n : ℕ) [n.AtLeastTwo] :
    (2 : ℚ) ^ (e + OfNat.ofNat n : ℤ) = 2 ^ (OfNat.ofNat n : ℕ) * 2 ^ e := by
  rw [zpow_add₀ (by norm_num), zpow_ofNat, mul_comm]

theorem two_zpow_eq_four_mul (e : ℤ) : (2 : ℚ) ^ e = 4 * 2 ^ (e - 2) := by
  have := two_zpow_add (e - 2) 2
  rw [sub_add_cancel] at this
  rw [this]
  norm_num

/-! ## The order of magnitude -/

/-- The exponent of the greatest power of two that is not above a ratio. -/
def orderOf (num den : ℕ) : ℤ :=
  let estimate : ℤ := (num.log2 : ℤ) - den.log2
  if den * pow2 estimate ≤ num * pow2 (-estimate) then estimate else estimate - 1

theorem two_zpow_le_ratio_iff {num den : ℕ} (hden : 0 < den) (f : ℤ) :
    den * pow2 f ≤ num * pow2 (-f) ↔ (2 : ℚ) ^ f ≤ num / den := by
  have hpos : (0 : ℚ) < (den * pow2 f : ℕ) := Nat.cast_pos.2 (Nat.mul_pos hden (pow2_pos f))
  have hpow := two_zpow_pos f
  rw [← Nat.cast_le (α := ℚ), ← one_le_div hpos, scaled_eq, one_le_div hpow]

theorem orderOf_spec {num den : ℕ} (hnum : 0 < num) (hden : 0 < den) :
    (2 : ℚ) ^ orderOf num den ≤ num / den ∧ (num / den : ℚ) < 2 ^ (orderOf num den + 1) := by
  have htwo : (2 : ℚ) ≠ 0 := by norm_num
  have hdenQ : (0 : ℚ) < den := Nat.cast_pos.2 hden
  have hlow : (2 : ℚ) ^ (num.log2 : ℤ) ≤ num := by
    rw [zpow_natCast]
    exact_mod_cast Nat.log2_self_le hnum.ne'
  have hhigh : (num : ℚ) < 2 ^ ((num.log2 : ℤ) + 1) := by
    exact_mod_cast Nat.lt_log2_self (n := num)
  have hlow' : (2 : ℚ) ^ (den.log2 : ℤ) ≤ den := by
    rw [zpow_natCast]
    exact_mod_cast Nat.log2_self_le hden.ne'
  have hhigh' : (den : ℚ) < 2 ^ ((den.log2 : ℤ) + 1) := by
    exact_mod_cast Nat.lt_log2_self (n := den)
  -- the estimate is off by one at most
  have hbelow : (2 : ℚ) ^ ((num.log2 : ℤ) - den.log2 - 1) ≤ num / den := by
    rw [le_div_iff₀ hdenQ]
    calc (2 : ℚ) ^ ((num.log2 : ℤ) - den.log2 - 1) * den
        ≤ 2 ^ ((num.log2 : ℤ) - den.log2 - 1) * 2 ^ ((den.log2 : ℤ) + 1) := by gcongr
      _ = 2 ^ (num.log2 : ℤ) := by rw [← zpow_add₀ htwo]; congr 1; omega
      _ ≤ num := hlow
  have habove : (num / den : ℚ) < 2 ^ ((num.log2 : ℤ) - den.log2 + 1) := by
    rw [div_lt_iff₀ hdenQ]
    calc (num : ℚ) < 2 ^ ((num.log2 : ℤ) + 1) := hhigh
      _ = 2 ^ ((num.log2 : ℤ) - den.log2 + 1) * 2 ^ (den.log2 : ℤ) := by
          rw [← zpow_add₀ htwo]; congr 1; omega
      _ ≤ 2 ^ ((num.log2 : ℤ) - den.log2 + 1) * den := by gcongr
  unfold orderOf
  simp only
  split
  · next h => exact ⟨(two_zpow_le_ratio_iff hden _).1 h, habove⟩
  · next h =>
    rw [two_zpow_le_ratio_iff hden, not_le] at h
    exact ⟨hbelow, by rwa [sub_add_cancel]⟩

theorem orderOf_eq {num den : ℕ} (hnum : 0 < num) (hden : 0 < den) {f : ℤ}
    (hlow : (2 : ℚ) ^ f ≤ num / den) (hhigh : (num / den : ℚ) < 2 ^ (f + 1)) :
    orderOf num den = f := by
  obtain ⟨hlow', hhigh'⟩ := orderOf_spec hnum hden
  have hone : orderOf num den < f + 1 :=
    (zpow_lt_zpow_iff_right₀ (by norm_num)).1 (hlow'.trans_lt hhigh)
  have hother : f < orderOf num den + 1 :=
    (zpow_lt_zpow_iff_right₀ (by norm_num)).1 (hlow.trans_lt hhigh')
  omega

/-! ## Rounding to a whole number -/

/-- A quotient at most one half away from a whole number rounds to it, the half itself only if the
number is even. -/
theorem roundDiv_eq_of_le {num den k : ℕ} (hden : 0 < den)
    (hlow : 2 * (k * den) ≤ 2 * num + den) (hhigh : 2 * num ≤ 2 * (k * den) + den)
    (hodd : k % 2 = 1 → 2 * (k * den) < 2 * num + den ∧ 2 * num < 2 * (k * den) + den) :
    roundDiv .toEven num den = k := by
  have hwhole := Nat.div_add_mod num den
  have hrest := Nat.mod_lt num hden
  -- the quotient is the number or the one before it
  have hcases : num / den = k ∨ num / den + 1 = k := by
    have hle : num / den ≤ k := by
      by_contra hgt
      have : (k + 1) * den ≤ num / den * den := Nat.mul_le_mul_right _ (by omega)
      have hcomm : num / den * den = den * (num / den) := Nat.mul_comm _ _
      rw [Nat.add_mul] at this
      omega
    have hge : k ≤ num / den + 1 := by
      by_contra hlt
      have : (num / den + 2) * den ≤ k * den := Nat.mul_le_mul_right _ (by omega)
      have hcomm : num / den * den = den * (num / den) := Nat.mul_comm _ _
      rw [Nat.add_mul] at this
      omega
    omega
  unfold roundDiv
  simp only
  rcases hcases with hk | hk
  · rw [hk] at hwhole ⊢
    have hcomm : den * k = k * den := Nat.mul_comm _ _
    split_ifs <;> omega
  · have hproduct : k * den = den * (num / den) + den := by
      rw [← hk, Nat.add_mul, Nat.one_mul, Nat.mul_comm]
    split_ifs <;> omega

/-- The same of a ratio. -/
theorem roundDiv_eq {num den k : ℕ} (hden : 0 < den) (hlow : (k : ℚ) - 1 / 2 ≤ num / den)
    (hhigh : (num / den : ℚ) ≤ k + 1 / 2)
    (hodd : k % 2 = 1 → (k : ℚ) - 1 / 2 < num / den ∧ (num / den : ℚ) < k + 1 / 2) :
    roundDiv .toEven num den = k := by
  have hdenQ : (0 : ℚ) < den := Nat.cast_pos.2 hden
  rw [le_div_iff₀ hdenQ] at hlow
  rw [div_le_iff₀ hdenQ] at hhigh
  rw [lt_div_iff₀ hdenQ, div_lt_iff₀ hdenQ] at hodd
  refine roundDiv_eq_of_le hden ?_ ?_ fun h => ⟨?_, ?_⟩
  · have : (2 * (k * den) : ℚ) ≤ 2 * num + den := by linarith
    exact_mod_cast this
  · have : (2 * num : ℚ) ≤ 2 * (k * den) + den := by linarith
    exact_mod_cast this
  · have : (2 * (k * den) : ℚ) < 2 * num + den := by linarith [(hodd h).1]
    exact_mod_cast this
  · have : (2 * num : ℚ) < 2 * (k * den) + den := by linarith [(hodd h).2]
    exact_mod_cast this

/-! ## The interval of a double -/

namespace Magnitude

/-- Where the numbers begin that round to a magnitude. -/
def lowEnd (v : Magnitude) : ℚ :=
  (v.mantissa - if v.narrow then 1 / 4 else 1 / 2) * 2 ^ v.exponent

/-- Where the numbers end that round to a magnitude. -/
def highEnd (v : Magnitude) : ℚ := (v.mantissa + 1 / 2) * 2 ^ v.exponent

/-- The number rounds to the magnitude. The ends do so if the mantissa is even. -/
def Rounds (v : Magnitude) (q : ℚ) : Prop :=
  if v.mantissa % 2 = 0 then v.lowEnd ≤ q ∧ q ≤ v.highEnd else v.lowEnd < q ∧ q < v.highEnd

variable {v : Magnitude} {q : ℚ}

theorem Rounds.le (h : v.Rounds q) : v.lowEnd ≤ q ∧ q ≤ v.highEnd := by
  unfold Rounds at h
  split at h
  · exact h
  · exact ⟨h.1.le, h.2.le⟩

theorem Rounds.lt_of_odd (h : v.Rounds q) (hodd : v.mantissa % 2 = 1) :
    v.lowEnd < q ∧ q < v.highEnd := by
  unfold Rounds at h
  rwa [if_neg (by omega)] at h

/-- The interval in units of the last place. -/
theorem Rounds.scaled (h : v.Rounds q) :
    (v.mantissa - 1 / 2 : ℚ) ≤ q / 2 ^ v.exponent ∧ q / 2 ^ v.exponent ≤ v.mantissa + 1 / 2 := by
  have hpow := two_zpow_pos v.exponent
  obtain ⟨hlow, hhigh⟩ := h.le
  refine ⟨(le_div_iff₀ hpow).2 (le_trans ?_ hlow), (div_le_iff₀ hpow).2 hhigh⟩
  unfold lowEnd
  gcongr
  split <;> norm_num

theorem Rounds.scaled_of_odd (h : v.Rounds q) (hodd : v.mantissa % 2 = 1) :
    (v.mantissa - 1 / 2 : ℚ) < q / 2 ^ v.exponent ∧ q / 2 ^ v.exponent < v.mantissa + 1 / 2 := by
  have hpow := two_zpow_pos v.exponent
  obtain ⟨hlow, hhigh⟩ := h.lt_of_odd hodd
  refine ⟨(lt_div_iff₀ hpow).2 (lt_of_le_of_lt ?_ hlow), (div_lt_iff₀ hpow).2 hhigh⟩
  unfold lowEnd
  gcongr
  split <;> norm_num

theorem Rounds.pos (h : v.Rounds q) (hm : 0 < v.mantissa) : 0 < q := by
  have hpow := two_zpow_pos v.exponent
  have hone : (1 : ℚ) ≤ v.mantissa := by exact_mod_cast hm
  refine lt_of_lt_of_le (mul_pos ?_ hpow) h.le.1
  split <;> linarith

end Magnitude

/-! ## The nearest double -/

theorem nearestBits_of_pos {num den : ℕ} (hnum : 0 < num) {f : ℤ}
    (hf : max (orderOf num den - 52) (-1074) = f) :
    nearestBits num den =
      min ((f + 1074).toNat * 2 ^ 52 + roundDiv .toEven (num * pow2 (-f)) (den * pow2 f))
        (2047 * 2 ^ 52) := by
  subst hf
  rw [nearestBits, if_neg hnum.ne']
  rfl

namespace Magnitude

variable {v : Magnitude} {q : ℚ} {num den : ℕ}

theorem Rounds.num_pos (h : v.Rounds (num / den)) (hm : 0 < v.mantissa) : 0 < num := by
  rcases Nat.eq_zero_or_pos num with rfl | hnum
  · have := h.pos hm
    simp at this
  · exact hnum

/-- No ratio that rounds to a double is above all doubles of the same exponent. -/
theorem Rounds.orderOf_le (h : v.Rounds (num / den)) (hv : v.IsDouble) (hm : 0 < v.mantissa)
    (hden : 0 < den) : orderOf num den ≤ v.exponent + 52 := by
  have hpow := two_zpow_pos v.exponent
  have hbits : (v.mantissa : ℚ) + 1 ≤ 2 ^ 53 := by exact_mod_cast hv.canonical.bits
  have habove : (num / den : ℚ) < 2 ^ (v.exponent + 53) := by
    rw [two_zpow_add v.exponent 53, ← div_lt_iff₀ hpow]
    linarith [h.scaled.2]
  have hlow := (orderOf_spec (h.num_pos hm) hden).1
  have := (zpow_lt_zpow_iff_right₀ (by norm_num)).1 (hlow.trans_lt habove)
  omega

/-- The mantissa is found where the exponent is. -/
theorem Rounds.roundDiv_eq (h : v.Rounds (num / den)) (hden : 0 < den) :
    roundDiv .toEven (num * pow2 (-v.exponent)) (den * pow2 v.exponent) = v.mantissa := by
  refine Decimal.roundDiv_eq (Nat.mul_pos hden (pow2_pos _)) ?_ ?_ fun hodd => ?_ <;>
    rw [scaled_eq]
  · exact h.scaled.1
  · exact h.scaled.2
  · exact h.scaled_of_odd hodd

/-- Below a power of two the exponent is one less, and rounding carries. -/
theorem Rounds.roundDiv_below (h : v.Rounds (num / den)) (hden : 0 < den)
    (hm : v.mantissa = 2 ^ 52) (hnarrow : v.narrow = true)
    (hbelow : (num / den : ℚ) < 2 ^ (v.exponent + 52)) :
    roundDiv .toEven (num * pow2 (-(v.exponent - 1))) (den * pow2 (v.exponent - 1)) = 2 ^ 53 := by
  have hpow := two_zpow_pos (v.exponent - 1)
  have hdouble : (2 : ℚ) ^ v.exponent = 2 * 2 ^ (v.exponent - 1) := by
    rw [← zpow_one_add₀ (by norm_num), add_sub_cancel]
  have hlow := h.le.1
  rw [lowEnd, hm, hnarrow, if_pos rfl, hdouble] at hlow
  rw [two_zpow_add v.exponent 52, hdouble] at hbelow
  refine Decimal.roundDiv_eq (Nat.mul_pos hden (pow2_pos _)) ?_ ?_ fun hodd => ?_
  · rw [scaled_eq, le_div_iff₀ hpow]
    push_cast at hlow ⊢
    linarith
  · rw [scaled_eq, div_le_iff₀ hpow]
    push_cast
    linarith
  · exact absurd hodd (by decide)

/-- A ratio that rounds to a magnitude has the bits of that magnitude. -/
theorem Rounds.nearestBits_eq (h : v.Rounds (num / den)) (hv : v.IsDouble)
    (hm : 0 < v.mantissa) (hden : 0 < den) : nearestBits num den = v.bits := by
  have hnum := h.num_pos hm
  have hleast := hv.canonical.least
  have hmost := hv.most
  have hlt := bits_lt hv
  have horder := h.orderOf_le hv hm hden
  have hpow := two_zpow_pos v.exponent
  obtain ⟨hlow, hhigh⟩ := orderOf_spec hnum hden
  by_cases hat : max (orderOf num den - 52) (-1074) = v.exponent
  · rw [nearestBits_of_pos hnum hat, h.roundDiv_eq hden, ← bits]
    omega
  -- the ratio is below the least number with that exponent, so the mantissa is that of a power
  -- of two
  have hbelow : (num / den : ℚ) < 2 ^ (v.exponent + 52) :=
    hhigh.trans_le ((zpow_le_zpow_iff_right₀ (by norm_num)).2 (by omega))
  have hfull : 2 ^ 52 ≤ v.mantissa := hv.canonical.full.resolve_right (by omega)
  have hmantissa : v.mantissa = 2 ^ 52 := by
    have hscaled : (num / den : ℚ) / 2 ^ v.exponent < 2 ^ 52 := by
      rw [div_lt_iff₀ hpow, ← two_zpow_add v.exponent 52]
      exact hbelow
    have : (v.mantissa : ℚ) < 2 ^ 52 + 1 := by linarith [h.scaled.1]
    have : v.mantissa < 2 ^ 52 + 1 := by exact_mod_cast this
    omega
  have hexponent : -1074 < v.exponent := by omega
  have hnarrow : v.narrow = true := hv.narrow_iff.2 ⟨hmantissa, hexponent⟩
  have habove : (2 : ℚ) ^ (v.exponent + 51) ≤ num / den := by
    rw [two_zpow_add v.exponent 51, ← le_div_iff₀ hpow]
    have := h.scaled.1
    rw [hmantissa] at this
    push_cast at this
    linarith
  have hat' : max (orderOf num den - 52) (-1074) = v.exponent - 1 := by
    rw [orderOf_eq hnum hden habove (by rwa [add_assoc])]
    omega
  rw [nearestBits_of_pos hnum hat', h.roundDiv_below hden hmantissa hnarrow hbelow, bits,
    hmantissa]
  omega

theorem Rounds.unpack_nearest (h : v.Rounds (num / den)) (hv : v.IsDouble)
    (hm : 0 < v.mantissa) (hden : 0 < den) :
    (nearest num den).toModel.unpack = v.unpacked .positive := by
  rw [nearest, h.nearestBits_eq hv hm hden, unpack_ofBits hv]

/-! ## Decimals -/

theorem Rounds.lt_two_zpow (h : v.Rounds q) (hv : v.IsDouble) : q < 2 ^ (1024 : ℤ) := by
  have hpow := two_zpow_pos v.exponent
  have hbits : (v.mantissa : ℚ) + 1 ≤ 2 ^ 53 := by exact_mod_cast hv.canonical.bits
  have hmost := hv.most
  calc q ≤ (v.mantissa + 1 / 2) * 2 ^ v.exponent := h.le.2
    _ < 2 ^ 53 * 2 ^ v.exponent := mul_lt_mul_of_pos_right (by linarith) hpow
    _ = 2 ^ (v.exponent + 53) := (two_zpow_add v.exponent 53).symm
    _ ≤ 2 ^ (1024 : ℤ) := zpow_le_zpow_right₀ (by norm_num) (by omega)

theorem Rounds.two_zpow_lt (h : v.Rounds q) (hm : 0 < v.mantissa) (hv : v.IsDouble) :
    2 ^ (-1076 : ℤ) < q := by
  have hpow := two_zpow_pos v.exponent
  have hone : (1 : ℚ) ≤ v.mantissa := by exact_mod_cast hm
  have hleast := hv.canonical.least
  have hquarter := two_zpow_eq_four_mul v.exponent
  calc (2 : ℚ) ^ (-1076 : ℤ) ≤ 2 ^ (v.exponent - 2) :=
        zpow_le_zpow_right₀ (by norm_num) (by omega)
    _ < 1 / 2 * 2 ^ v.exponent := by linarith
    _ ≤ (v.mantissa - 1 / 2) * 2 ^ v.exponent :=
        mul_le_mul_of_nonneg_right (by linarith) hpow.le
    _ ≤ q := (le_div_iff₀ hpow).1 h.scaled.1

/-- A decimal that rounds to a magnitude is read as that double. -/
theorem Rounds.unpack_ofDigits {digits : ℕ} {exponent : ℤ}
    (h : v.Rounds (digits * 10 ^ exponent)) (hv : v.IsDouble) (hm : 0 < v.mantissa) :
    (ofDigits digits exponent).toModel.unpack = v.unpacked .positive := by
  have hpow := ten_zpow_pos exponent
  have hdigits : digits ≠ 0 := by
    rintro rfl
    have := h.pos hm
    simp at this
  have hratio : ((digits * pow10 exponent : ℕ) : ℚ) / (pow10 (-exponent) : ℕ) =
      digits * 10 ^ exponent := by
    rw [Nat.cast_mul, mul_div_assoc, pow10_div]
  have hnear : ¬ 400 < exponent := by
    intro hfar
    have hone : (1 : ℚ) ≤ digits := by exact_mod_cast Nat.pos_of_ne_zero hdigits
    have hlarge : (2 : ℚ) ^ (1024 : ℤ) ≤ digits * 10 ^ exponent :=
      (two_zpow_le_ten_zpow (by omega) (by omega)).trans (le_mul_of_one_le_left hpow.le hone)
    exact absurd (h.lt_two_zpow hv) (not_lt.2 hlarge)
  have hlarge : ¬ exponent + (digits.log2 : ℤ) < -1200 := by
    intro hfar
    have hlog : (digits : ℚ) ≤ 2 ^ ((digits.log2 : ℤ) + 1) := by
      exact_mod_cast (Nat.lt_log2_self (n := digits)).le
    have hsmall : (digits : ℚ) * 10 ^ exponent ≤ 2 ^ (-1076 : ℤ) :=
      calc (digits : ℚ) * 10 ^ exponent ≤ 2 ^ ((digits.log2 : ℤ) + 1) * 2 ^ exponent := by
            gcongr
            exact ten_zpow_le_of_nonpos (by omega) (by omega)
        _ = 2 ^ ((digits.log2 : ℤ) + 1 + exponent) := (zpow_add₀ (by norm_num) _ _).symm
        _ ≤ 2 ^ (-1076 : ℤ) := zpow_le_zpow_right₀ (by norm_num) (by omega)
    exact absurd (h.two_zpow_lt hm hv) (not_lt.2 hsmall)
  rw [ofDigits, if_neg hdigits, if_neg hnear, if_neg hlarge]
  exact Rounds.unpack_nearest (hratio ▸ h) hv hm (pow10_pos _)

end Magnitude

end Lindenmayer.Decimal
