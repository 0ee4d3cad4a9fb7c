import Mathlib.Algebra.Ring.Nat
import Mathlib.Data.Int.Notation
import Mathlib.Order.Nat

/-!
# Rounding to a double

The arithmetic of doubles computes a mantissa and an exponent exactly and rounds the two to the
nearest double. Here is what the rest of the theory needs of that rounding, for results that are
not so small that digits would have to be added.

* Mantissas and exponents that a double can hold are `Canonical`.
* They are not changed by rounding, however they are written (`roundWithAccuracy_of_canonical`).
* A mantissa is moved to the right so far that it becomes canonical (`exists_shift`), and its last
  bit is then rounded, which may carry (`exists_round_of_shift`).
* So nothing is rounded to the other side of a double (`exists_round`).
-/

namespace Lindenmayer.Double

open Float.Model Float.Model.UnpackedFloat

/-- Mantissa and exponent are those of a double: fifty-three bits at most, and less only where the
exponent can not be smaller. The exponent may still be too large. -/
structure Canonical (m : ℕ) (e : ℤ) : Prop where
  bits : m < 2 ^ 53
  least : -1074 ≤ e
  full : 2 ^ 52 ≤ m ∨ e = -1074

theorem targetExponent_eq (m : ℕ) (e : ℤ) :
    Format.binary64.targetExponent (totalExponent m e) = max (m.log2 + e - 52) (-1074) := by
  show max ((m.log2 : ℤ) + 1 + e - 53) (-1074) = _
  congr 1
  omega

/-- A canonical mantissa is where it should be. -/
theorem Canonical.max_eq {m : ℕ} {e : ℤ} (h : Canonical m e) (hm : 0 < m) :
    max (m.log2 + e - 52) (-1074) = e := by
  have hlog : m.log2 < 53 := (Nat.log2_lt hm.ne').2 h.bits
  have hleast := h.least
  rcases h.full with hfull | rfl
  · have : 52 ≤ m.log2 := (Nat.le_log2 hm.ne').2 hfull
    omega
  · omega

theorem log2_mul_two_pow {m : ℕ} (hm : 0 < m) (k : ℕ) : (m * 2 ^ k).log2 = m.log2 + k := by
  have hne : m * 2 ^ k ≠ 0 := Nat.mul_ne_zero hm.ne' (Nat.two_pow_pos k).ne'
  refine (Nat.log2_eq_iff hne).2 ⟨?_, ?_⟩
  · rw [Nat.pow_add]
    exact Nat.mul_le_mul_right _ (Nat.log2_self_le hm.ne')
  · rw [Nat.add_right_comm, Nat.pow_add]
    exact Nat.mul_lt_mul_of_pos_right Nat.lt_log2_self (Nat.two_pow_pos k)

/-! ## Moving a mantissa -/

theorem mantissa_shiftRight (em : ExtendedMantissa) (k : ℕ) :
    (em >>> k).mantissa = em.mantissa / 2 ^ k := by
  induction k with
  | zero => exact (Nat.div_one _).symm
  | succ k ih =>
      show (em >>> k).mantissa / 2 = _
      rw [ih, Nat.div_div_eq_div_mul, Nat.pow_succ]

/-- Zeros at the end of a mantissa may go without loss. -/
theorem shiftRight_mul (m k : ℕ) :
    (⟨m * 2 ^ k, false, false⟩ : ExtendedMantissa) >>> k = ⟨m, false, false⟩ := by
  induction k generalizing m with
  | zero =>
      show (⟨m * 1, false, false⟩ : ExtendedMantissa) = _
      rw [Nat.mul_one]
  | succ k ih =>
      -- the first of the zeros to go is taken for a part of the mantissa
      have hmove : m * 2 ^ (k + 1) = (m * 2) * 2 ^ k := by
        rw [Nat.pow_succ, Nat.mul_assoc, Nat.mul_comm 2]
      show ((⟨m * 2 ^ (k + 1), false, false⟩ : ExtendedMantissa) >>> k).shiftRightOne = _
      rw [hmove, ih]
      simp [ExtendedMantissa.shiftRightOne]

theorem mantissa_ofMantissaAndAccuracy (m : ℕ) (acc : Accuracy) :
    (ExtendedMantissa.ofMantissaAndAccuracy m acc).mantissa = m := by
  rcases acc with - | (- | - | -) <;> rfl

theorem roundedMantissa_bounds (em : ExtendedMantissa) :
    em.mantissa ≤ em.roundedMantissa ∧ em.roundedMantissa ≤ em.mantissa + 1 := by
  obtain ⟨m, round, sticky⟩ := em
  cases round <;> cases sticky <;>
    simp only [ExtendedMantissa.roundedMantissa, ExtendedMantissa.accuracy,
      Accuracy.roundToNearestEven] <;>
    omega

/-- A mantissa that is not too far to the right already is moved to where it should be. -/
theorem shiftToTargetExponent_eq {m : ℕ} {e t : ℤ} (ht : max (m.log2 + e - 52) (-1074) = t)
    (het : e ≤ t) (acc : Accuracy) :
    shiftToTargetExponent .binary64 m e acc =
      (ExtendedMantissa.ofMantissaAndAccuracy m acc >>> (t - e).toNat, t) := by
  simp only [shiftToTargetExponent, shiftToExponent, targetExponent_eq, ht]
  congr 1
  omega

/-- There it has the bits of a double. -/
theorem canonical_shift {n : ℕ} {e t : ℤ} (ht : max (n.log2 + e - 52) (-1074) = t)
    (het : e ≤ t) : Canonical (n / 2 ^ (t - e).toNat) t := by
  obtain ⟨k, hk⟩ : ∃ k : ℕ, (t - e).toNat = k := ⟨_, rfl⟩
  rw [hk]
  refine ⟨?_, by omega, ?_⟩
  · rw [Nat.div_lt_iff_lt_mul (Nat.two_pow_pos k), ← Nat.pow_add]
    exact Nat.lt_of_lt_of_le Nat.lt_log2_self (Nat.pow_le_pow_right (by decide) (by omega))
  · by_cases hleast : t = -1074
    · exact .inr hleast
    · left
      have hn : n ≠ 0 := by
        rintro rfl
        rw [Nat.log2_zero] at ht
        omega
      rw [Nat.le_div_iff_mul_le (Nat.two_pow_pos k), ← Nat.pow_add]
      exact Nat.le_trans (Nat.pow_le_pow_right (by decide) (by omega)) (Nat.log2_self_le hn)

theorem shiftToTargetExponent_of_canonical {m : ℕ} {e : ℤ} (h : Canonical m e) (hm : 0 < m)
    (k : ℕ) :
    shiftToTargetExponent .binary64 (m * 2 ^ k) (e - k) .exact = (⟨m, false, false⟩, e) := by
  have htarget : max ((m * 2 ^ k).log2 + (e - k) - 52) (-1074) = e := by
    rw [log2_mul_two_pow hm k]
    have := h.max_eq hm
    omega
  have hmove : (e - (e - (k : ℤ))).toNat = k := by omega
  rw [shiftToTargetExponent_eq htarget (by omega), hmove]
  exact Prod.ext (shiftRight_mul m k) rfl

/-- Nothing is moved that is where it should be. -/
theorem shiftToTargetExponent_self {m : ℕ} {e : ℤ} (h : Canonical m e) (hm : 0 < m) :
    shiftToTargetExponent .binary64 m e .exact = (⟨m, false, false⟩, e) := by
  have hmove := shiftToTargetExponent_of_canonical h hm 0
  rwa [Nat.pow_zero, Nat.mul_one, Int.natCast_zero, Int.sub_zero] at hmove

/-! ## Rounding -/

/-- Rounding moves the mantissa twice; the second move makes up for a carry. -/
theorem roundWithAccuracy_eq (s : Sign) {m : ℕ} {e : ℤ} {acc : Accuracy}
    {first second : ExtendedMantissa × ℤ}
    (hfirst : shiftToTargetExponent .binary64 m e acc = first)
    (hsecond : shiftToTargetExponent .binary64 first.1.roundedMantissa first.2 .exact = second) :
    roundWithAccuracy .binary64 s m e acc =
      if h : second.1.mantissa = 0 then .zero s
      else .finite s second.1.mantissa second.2 (Nat.pos_of_ne_zero h) := by
  subst hfirst hsecond
  rfl

theorem roundWithAccuracy_of_shifts (s : Sign) {m r : ℕ} {e t f : ℤ} {acc : Accuracy}
    {em : ExtendedMantissa} (hr : 0 < r)
    (hfirst : shiftToTargetExponent .binary64 m e acc = (em, t))
    (hsecond : shiftToTargetExponent .binary64 em.roundedMantissa t .exact =
      (⟨r, false, false⟩, f)) :
    roundWithAccuracy .binary64 s m e acc = .finite s r f hr :=
  (roundWithAccuracy_eq s hfirst hsecond).trans (dif_neg hr.ne')

/-- What a double can hold exactly is not changed by rounding. -/
theorem roundWithAccuracy_of_canonical (s : Sign) {m : ℕ} {e : ℤ} (h : Canonical m e)
    (hm : 0 < m) (k : ℕ) :
    roundWithAccuracy .binary64 s (m * 2 ^ k) (e - k) .exact = .finite s m e hm :=
  roundWithAccuracy_of_shifts s hm (shiftToTargetExponent_of_canonical h hm k)
    (shiftToTargetExponent_self h hm)

/-- The first move of a mantissa that reaches a double: it becomes canonical itself, and reaches
the double still. -/
theorem exists_shift {m n : ℕ} {e e₀ : ℤ} (h : Canonical m e) (hm : 0 < m) (he : e₀ ≤ e)
    (hle : m * 2 ^ (e - e₀).toNat ≤ n) :
    ∃ em t, shiftToTargetExponent .binary64 n e₀ .exact = (em, t) ∧
      max (n.log2 + e₀ - 52) (-1074) = t ∧ 0 < em.mantissa ∧ Canonical em.mantissa t ∧
      (e < t ∨ e = t ∧ m ≤ em.mantissa) := by
  have hn : 0 < n := Nat.lt_of_lt_of_le (Nat.mul_pos hm (Nat.two_pow_pos _)) hle
  obtain ⟨t, ht⟩ : ∃ t : ℤ, max (n.log2 + e₀ - 52) (-1074) = t := ⟨_, rfl⟩
  have het : e ≤ t := by
    have hlog : (m * 2 ^ (e - e₀).toNat).log2 ≤ n.log2 := by
      refine (Nat.le_log2 hn.ne').2 (Nat.le_trans (Nat.log2_self_le ?_) hle)
      exact Nat.mul_ne_zero hm.ne' (Nat.two_pow_pos _).ne'
    rw [log2_mul_two_pow hm] at hlog
    have := h.max_eq hm
    omega
  have hshift := canonical_shift ht (Int.le_trans he het)
  have hreach : e < t ∨ e = t ∧ m ≤ n / 2 ^ (t - e₀).toNat := by
    rcases Int.lt_or_eq_of_le het with hlt | rfl
    · exact .inl hlt
    · right
      rw [Nat.le_div_iff_mul_le (Nat.two_pow_pos _)]
      exact ⟨rfl, hle⟩
  have hfull := hshift.full
  have hleast := h.least
  refine ⟨_, t, shiftToTargetExponent_eq ht (Int.le_trans he het) .exact, ht, ?_⟩
  rw [mantissa_shiftRight, mantissa_ofMantissaAndAccuracy]
  exact ⟨by omega, hshift, hreach⟩

/-- The second move, after the last bit has been rounded. -/
theorem exists_round_of_shift (s : Sign) {n : ℕ} {e₀ t : ℤ} {acc : Accuracy}
    {em : ExtendedMantissa} (hfirst : shiftToTargetExponent .binary64 n e₀ acc = (em, t))
    (hpos : 0 < em.roundedMantissa) (hem : Canonical em.mantissa t) :
    ∃ r f hr, roundWithAccuracy .binary64 s n e₀ acc = .finite s r f hr ∧ Canonical r f ∧
      (f = t + 1 ∨ f = t ∧ em.mantissa ≤ r) := by
  obtain ⟨hlow, hhigh⟩ := roundedMantissa_bounds em
  obtain ⟨hbits, hleast, hfull⟩ := hem
  by_cases hcarry : em.roundedMantissa < 2 ^ 53
  · have hcanonical : Canonical em.roundedMantissa t := ⟨hcarry, hleast, by omega⟩
    have hsecond := shiftToTargetExponent_self hcanonical hpos
    exact ⟨_, t, hpos, roundWithAccuracy_of_shifts s hpos hfirst hsecond, hcanonical,
      .inr ⟨rfl, hlow⟩⟩
  · -- all bits were ones, so the mantissa has become a power of two
    have hpower : em.roundedMantissa = 2 ^ 52 * 2 ^ 1 := by omega
    have hcanonical : Canonical (2 ^ 52) (t + 1) := ⟨by decide, by omega, .inl (Nat.le_refl _)⟩
    have hsecond := shiftToTargetExponent_of_canonical hcanonical (by decide) 1
    rw [← hpower, Int.natCast_one, Int.add_sub_cancel] at hsecond
    exact ⟨_, t + 1, by decide, roundWithAccuracy_of_shifts s _ hfirst hsecond, hcanonical,
      .inl rfl⟩

/-- What is rounded becomes a zero or what a double can hold, and its exponent is where it should
be or, after a carry, one more. -/
theorem roundWithAccuracy_cases (s : Sign) {n : ℕ} {e t : ℤ}
    (ht : max (n.log2 + e - 52) (-1074) = t) (het : e ≤ t) (acc : Accuracy) :
    roundWithAccuracy .binary64 s n e acc = .zero s ∨
      ∃ r f hr, roundWithAccuracy .binary64 s n e acc = .finite s r f hr ∧ Canonical r f ∧
        f ≤ t + 1 := by
  have hfirst := shiftToTargetExponent_eq ht het acc
  have hem : Canonical (ExtendedMantissa.ofMantissaAndAccuracy n acc >>> (t - e).toNat).mantissa
      t := by
    rw [mantissa_shiftRight, mantissa_ofMantissaAndAccuracy]
    exact canonical_shift ht het
  generalize ExtendedMantissa.ofMantissaAndAccuracy n acc >>> (t - e).toNat = em at hfirst hem
  rcases Nat.eq_zero_or_pos em.roundedMantissa with hzero | hpos
  · left
    have hsecond :
        (shiftToTargetExponent .binary64 em.roundedMantissa t .exact).1.mantissa = 0 := by
      rw [hzero]
      exact (mantissa_shiftRight _ _).trans (Nat.zero_div _)
    exact (roundWithAccuracy_eq s hfirst rfl).trans (dif_pos hsecond)
  · right
    obtain ⟨r, f, hr, hround, hcanonical, hnext⟩ := exists_round_of_shift s hfirst hpos hem
    exact ⟨r, f, hr, hround, hcanonical, by omega⟩

/-- Rounding keeps to one side of a double: what reaches it is not rounded below it. -/
theorem exists_round (s : Sign) {m n : ℕ} {e e₀ : ℤ} (h : Canonical m e) (hm : 0 < m)
    (he : e₀ ≤ e) (hle : m * 2 ^ (e - e₀).toNat ≤ n) :
    ∃ r f hr, UnpackedFloat.round .binary64 s n e₀ = .finite s r f hr ∧ Canonical r f ∧
      (e < f ∨ e = f ∧ m ≤ r) := by
  obtain ⟨em, t, hfirst, ht, hpos, hem, hreach⟩ := exists_shift h hm he hle
  have hkept : 0 < em.roundedMantissa := Nat.lt_of_lt_of_le hpos (roundedMantissa_bounds em).1
  obtain ⟨r, f, hr, hrounded, hcanonical, hnext⟩ := exists_round_of_shift s hfirst hkept hem
  -- no digits have to be added before
  have hround : UnpackedFloat.round .binary64 s n e₀ =
      roundWithAccuracy .binary64 s n e₀ .exact := by
    have hzero : (e₀ - t).toNat = 0 := by omega
    simp only [UnpackedFloat.round, targetExponent_eq, ht, decreaseExponent, hzero]
    simp
  exact ⟨r, f, hr, hround.trans hrounded, hcanonical, by omega⟩

end Lindenmayer.Double
