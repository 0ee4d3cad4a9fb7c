import Lindenmayer.Proofs.Double.Bits
import Lindenmayer.Proofs.Double.Order

/-!
# How large results are

The exponent of a double tells how large it is (`Within`). Those of products, differences and
quotients follow from the exponents of what they are computed of, since rounding adds one at most,
for a carry (`within_roundWithAccuracy`). A result is finite if its exponent is not too large
(`Within.isFinite`).
-/

namespace Lindenmayer.Double

open Float.Model Float.Model.UnpackedFloat

/-- The double is a zero, or finite with an exponent of `k` at most. -/
inductive Within (k : ℤ) : UnpackedFloat → Prop
  | zero (s : Sign) : Within k (.zero s)
  | finite (s : Sign) {m : ℕ} {e : ℤ} (hm : 0 < m) :
      Canonical m e → e ≤ k → Within k (.finite s m e hm)

variable {j k : ℤ} {u v : UnpackedFloat}

/-- Between zero and a double the exponents are not above its own. -/
theorem within_of_le {x y : Float} {m : ℕ} {hm : 0 < m} (hx : 0.0 ≤ x) (hle : x ≤ y)
    (hy : y.toModel.unpack = .finite .positive m k hm) : Within k x.toModel.unpack := by
  rw [le_iff, hy] at hle
  rw [nonneg_iff] at hx
  generalize x.toModel.unpack = u at hx hle
  cases hx with
  | zero s => exact .zero s
  | finite hm' hcanonical hmost =>
      refine .finite .positive hm' hcanonical ?_
      rcases isLE_then.1 hle with hlt | ⟨rfl, -⟩
      · exact hlt.le
      · exact Int.le_refl _
  | infinity => cases hle

theorem Within.isFinite {x : Float} (h : Within k x.toModel.unpack) : x.isFinite = true := by
  show x.toModel.unpack.isFinite = true
  generalize x.toModel.unpack = u at h
  cases h with
  | zero | finite => rfl

theorem Within.neg (h : Within k u) : Within k u.neg := by
  cases h with
  | zero s => exact .zero (-s)
  | finite s hm hcanonical he => exact .finite (-s) hm hcanonical he

/-- What comes back from the bits of a result. -/
def held (u : UnpackedFloat) : UnpackedFloat :=
  UnpackedFloat.unpack .binary64 (UnpackedFloat.pack .binary64 u)

theorem Within.held (h : Within k u) (hmost : k ≤ 971) : Within k (held u) := by
  unfold Double.held
  cases h with
  | zero s =>
      rw [unpack_pack_zero]
      exact .zero s
  | finite s hm hcanonical he =>
      rw [unpack_pack_finite s hcanonical hm, if_neg (by omega)]
      exact .finite s hm hcanonical he

/-! ## Rounded results -/

section

variable (s : Sign) {n : ℕ} {e : ℤ}

theorem within_roundWithAccuracy (acc : Accuracy) (hplace : 52 ≤ n.log2 ∨ e ≤ -1074)
    (hbound : n.log2 + e < k + 52) (hleast : -1074 < k) (hmost : k ≤ 971) :
    Within k (held (roundWithAccuracy .binary64 s n e acc)) := by
  obtain ⟨t, ht⟩ : ∃ t : ℤ, max (n.log2 + e - 52) (-1074) = t := ⟨_, rfl⟩
  rcases roundWithAccuracy_cases s ht (by omega) acc with hzero | ⟨r, f, hr, hround, hr', hf⟩
  · rw [hzero]
    exact (Within.zero s).held hmost
  · rw [hround]
    exact (Within.finite s hr hr' (by omega)).held hmost

/-- Digits that the mantissa lacks are added before it is rounded. -/
theorem within_round (hn : 0 < n) (hbound : n.log2 + e < k + 52) (hleast : -1074 < k)
    (hmost : k ≤ 971) : Within k (held (UnpackedFloat.round .binary64 s n e)) := by
  obtain ⟨added, hadded⟩ : ∃ a : ℕ, (e - max (n.log2 + e - 52) (-1074)).toNat = a := ⟨_, rfl⟩
  have hlog := log2_mul_two_pow hn added
  have hround : UnpackedFloat.round .binary64 s n e =
      roundWithAccuracy .binary64 s (n * 2 ^ added) (e - added) .exact := by
    simp only [UnpackedFloat.round, targetExponent_eq, decreaseExponent, Nat.shiftLeft_eq, hadded]
  rw [hround]
  exact within_roundWithAccuracy s .exact (by omega) (by omega) hleast hmost

theorem within_normalize {z : ℤ} (hbound : z.natAbs.log2 + e < k + 52) (hleast : -1074 < k)
    (hmost : k ≤ 971) : Within k (held (UnpackedFloat.normalize .binary64 z e s)) := by
  unfold UnpackedFloat.normalize
  split
  · next hneg =>
    have hneg : z < 0 := Int.compare_eq_lt.1 hneg
    have habs : (-z).toNat = z.natAbs := by omega
    rw [habs]
    exact within_round .negative (by omega) hbound hleast hmost
  · exact (Within.zero s).held hmost
  · next hpos =>
    have hpos : 0 < z := Int.compare_eq_gt.1 hpos
    have habs : z.toNat = z.natAbs := by omega
    rw [habs]
    exact within_round .positive (by omega) hbound hleast hmost

end

/-! ## Products, differences, quotients -/

theorem log2_lt_of_lt {n k : ℕ} (hk : 0 < k) (h : n < 2 ^ k) : n.log2 < k := by
  rcases Nat.eq_zero_or_pos n with rfl | hn
  · exact hk
  · exact (Nat.log2_lt hn.ne').2 h

theorem natAbs_apply (s : Sign) (z : ℤ) : (s.apply z).natAbs = z.natAbs := by
  cases s with
  | positive => rfl
  | negative => exact Int.natAbs_neg z

theorem Within.mul (hu : Within j u) (hv : Within k v) (hleast : -1128 < j + k)
    (hmost : j + k ≤ 917) :
    Within (j + k + 54) (Double.held (UnpackedFloat.mul .binary64 u v)) := by
  cases hu with
  | zero s =>
      cases hv with
      | zero s' | finite s' => exact (Within.zero (s * s')).held (by omega)
  | @finite s m e hm hcanonical he =>
      cases hv with
      | zero s' => exact (Within.zero (s * s')).held (by omega)
      | @finite s' n f hn hcanonical' hf =>
          have hproduct : m * n < 2 ^ 53 * 2 ^ 53 :=
            Nat.mul_lt_mul'' hcanonical.bits hcanonical'.bits
          have hlog : (m * n).log2 < 106 := log2_lt_of_lt (by decide) hproduct
          -- one mantissa is full, or both exponents are as small as can be
          have hplace : 52 ≤ (m * n).log2 ∨ e + f ≤ -1074 := by
            rw [Nat.le_log2 (Nat.mul_pos hm hn).ne']
            rcases hcanonical.full with hfull | he
            · exact .inl (Nat.le_trans hfull (Nat.le_mul_of_pos_right m hn))
            · rcases hcanonical'.full with hfull | hf
              · exact .inl (Nat.le_trans hfull (Nat.le_mul_of_pos_left n hm))
              · omega
          exact within_roundWithAccuracy _ .exact hplace (by omega) (by omega) (by omega)

/-- A mantissa at a smaller exponent. -/
theorem shifted_lt {m : ℕ} {e : ℤ} (hm : m < 2 ^ 53) (he : e ≤ k) (least : ℤ) :
    m <<< (e - least).toNat < 2 ^ (53 + (k - least).toNat) := by
  rw [Nat.shiftLeft_eq, Nat.pow_add]
  exact Nat.mul_lt_mul_of_lt_of_le hm (Nat.pow_le_pow_right (by decide) (by omega))
    (Nat.two_pow_pos _)

theorem Within.sub (hu : Within k u) (hv : Within k v) (hleast : -1076 < k) (hmost : k ≤ 969) :
    Within (k + 2) (Double.held (UnpackedFloat.sub .binary64 u v)) := by
  cases hu with
  | zero s =>
      cases hv with
      | zero s' =>
          show Within _ (Double.held (if s == -s' then .zero s else .zero .positive))
          split
          · exact (Within.zero s).held (by omega)
          · exact (Within.zero .positive).held (by omega)
      | finite s' hn hcanonical' hf =>
          exact (Within.finite (-s') hn hcanonical' (by omega)).held (by omega)
  | @finite s m e hm hcanonical he =>
      cases hv with
      | zero s' => exact (Within.finite s hm hcanonical (by omega)).held (by omega)
      | @finite s' n f hn hcanonical' hf =>
          obtain ⟨least, hmin⟩ : ∃ l, min e f = l := ⟨_, rfl⟩
          have hleft := shifted_lt hcanonical.bits he least
          have hright := shifted_lt hcanonical'.bits hf least
          have hsub : UnpackedFloat.sub .binary64 (.finite s m e hm) (.finite s' n f hn) =
              UnpackedFloat.normalize .binary64
                (s.apply (m <<< (e - least).toNat : ℕ) - s'.apply (n <<< (f - least).toNat : ℕ))
                least .positive := by
            rw [← hmin]
            rfl
          generalize m <<< (e - least).toNat = a at hleft hsub
          generalize n <<< (f - least).toNat = b at hright hsub
          have habs : (s.apply (a : ℤ) - s'.apply (b : ℤ)).natAbs <
              2 ^ (53 + (k - least).toNat + 1) := by
            have hle := Int.natAbs_sub_le (s.apply (a : ℤ)) (s'.apply (b : ℤ))
            rw [natAbs_apply, natAbs_apply] at hle
            rw [Nat.pow_succ]
            omega
          have hlog := log2_lt_of_lt (by omega) habs
          rw [hsub]
          exact within_normalize .positive (by omega) (by omega) (by omega)

/-- By how much the dividend is moved for the quotient to have all digits that are needed. -/
theorem div_finite (s s' : Sign) {m n : ℕ} {e f t : ℤ} (hm : 0 < m) (hn : 0 < n)
    (ht : min (e - f) (max (m.log2 + e - (n.log2 + f) - 53) (-1074)) = t) :
    UnpackedFloat.div .binary64 (.finite s m e hm) (.finite s' n f hn) =
      roundWithAccuracy .binary64 (s / s') (m * 2 ^ (e - f - t).toNat / n) t
        (accuracyOfFraction (m * 2 ^ (e - f - t).toNat % n) n) := by
  have htarget : Format.binary64.targetExponent (totalExponent m e - totalExponent n f) =
      max (m.log2 + e - (n.log2 + f) - 53) (-1074) := by
    show max ((m.log2 : ℤ) + 1 + e - (n.log2 + 1 + f) - 53) (-1074) = _
    congr 1
    omega
  rw [← htarget] at ht
  subst ht
  rw [← Nat.shiftLeft_eq]
  rfl

/-- The quotient is not much longer than the dividend was moved. -/
theorem quotient_lt {m n : ℕ} (hm : m < 2 ^ 53) (hfull : 2 ^ 52 ≤ n) (d : ℕ) :
    m * 2 ^ d / n < 2 ^ (d + 1) := by
  rw [Nat.div_lt_iff_lt_mul (Nat.lt_of_lt_of_le (by decide) hfull)]
  calc m * 2 ^ d < 2 ^ 53 * 2 ^ d := Nat.mul_lt_mul_of_pos_right hm (Nat.two_pow_pos d)
    _ = 2 ^ (d + 1) * 2 ^ 52 := by rw [← Nat.pow_add, ← Nat.pow_add]; congr 1; omega
    _ ≤ 2 ^ (d + 1) * n := Nat.mul_le_mul_left _ hfull

theorem le_quotient {m n d : ℕ} (hm : 0 < m) (hn : 0 < n) (h : n.log2 + 53 ≤ m.log2 + d) :
    2 ^ 52 ≤ m * 2 ^ d / n := by
  rw [Nat.le_div_iff_mul_le hn]
  calc 2 ^ 52 * n ≤ 2 ^ 52 * 2 ^ (n.log2 + 1) := Nat.mul_le_mul_left _ Nat.lt_log2_self.le
    _ ≤ 2 ^ m.log2 * 2 ^ d := by
        rw [← Nat.pow_add, ← Nat.pow_add]
        exact Nat.pow_le_pow_right (by decide) (by omega)
    _ ≤ m * 2 ^ d := Nat.mul_le_mul_right _ (Nat.log2_self_le hm.ne')

theorem Within.div {n : ℕ} {f : ℤ} (hu : Within k u) (s' : Sign) (hn : 0 < n)
    (hfull : 2 ^ 52 ≤ n) (hleast : -1023 < k - f) (hmost : k - f ≤ 1022) :
    Within (k - f - 51)
      (Double.held (UnpackedFloat.div .binary64 u (.finite s' n f hn))) := by
  cases hu with
  | zero s => exact (Within.zero (s / s')).held (by omega)
  | @finite s m e hm hcanonical he =>
      obtain ⟨t, ht⟩ : ∃ t : ℤ, min (e - f) (max (m.log2 + e - (n.log2 + f) - 53) (-1074)) = t :=
        ⟨_, rfl⟩
      obtain ⟨d, hd⟩ : ∃ d : ℕ, (e - f - t).toNat = d := ⟨_, rfl⟩
      rw [div_finite s s' hm hn ht, hd]
      have hlog : (m * 2 ^ d / n).log2 < d + 1 :=
        log2_lt_of_lt (Nat.succ_pos d) (quotient_lt hcanonical.bits hfull d)
      have hplace : 52 ≤ (m * 2 ^ d / n).log2 ∨ t ≤ -1074 := by
        by_cases hsmall : t ≤ -1074
        · exact .inr hsmall
        · have hlong : 2 ^ 52 ≤ m * 2 ^ d / n := le_quotient hm hn (by omega)
          exact .inl ((Nat.le_log2 (Nat.ne_of_gt (Nat.lt_of_lt_of_le (by decide) hlong))).2 hlong)
      exact within_roundWithAccuracy _ _ hplace (by omega) (by omega) (by omega)

end Lindenmayer.Double
