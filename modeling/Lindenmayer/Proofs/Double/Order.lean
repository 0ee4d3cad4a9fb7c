import Lindenmayer.Proofs.Double.Packing
import Mathlib.Data.Int.Order.Basic
import Mathlib.Data.Prod.Lex

/-!
# The order of doubles

Doubles are compared by sign, then exponent, then mantissa. Each but NaN has a `place` in a linear
order and compares as its place does (`compare_eq_place`), so the comparison is transitive
(`le_trans`). The sum of two doubles that are not negative is not below either of them, although it
is rounded (`le_add`).
-/

namespace Lindenmayer.Double

open Float.Model Float.Model.UnpackedFloat

/-! ## Places -/

/-- Where a double stands among the others: its sign and kind, then its exponent, then its
mantissa. -/
def place : UnpackedFloat → Option (ℤ ×ₗ ℤ ×ₗ ℤ)
  | .notANumber => none
  | .infinity .negative => some (toLex (-2, toLex (0, 0)))
  | .finite .negative m e _ => some (toLex (-1, toLex (-e, -m)))
  | .zero _ => some (toLex (0, toLex (0, 0)))
  | .finite .positive m e _ => some (toLex (1, toLex (e, m)))
  | .infinity .positive => some (toLex (2, toLex (0, 0)))

theorem compare_toLex (i e f m n : ℤ) :
    compare (toLex (i, toLex (e, m))) (toLex (i, toLex (f, n))) =
      (compare e f).then (compare m n) := by
  simp [Prod.Lex.compare_def, compareLex, compareOn]

theorem compare_neg (e f : ℤ) : compare (-e) (-f) = (compare e f).swap := by
  rw [Int.compare_swap, Int.compare_eq_ite_lt, Int.compare_eq_ite_lt]
  simp only [Int.neg_lt_neg_iff]

theorem compare_natCast (m n : ℕ) : compare (m : ℤ) (n : ℤ) = compare m n := by
  rw [Int.compare_eq_ite_lt, Nat.compare_eq_ite_lt]
  simp only [Int.ofNat_lt]

/-- Doubles compare as their places do. -/
theorem compare_eq_place (u v : UnpackedFloat) :
    u.compare v = (place u).bind fun a => (place v).map (compare a) := by
  -- only numbers of one sign need more than the first part of their places
  rcases u with ⟨⟨⟩⟩ | - | s | ⟨⟨⟩, m, e, h⟩ <;> rcases v with ⟨⟨⟩⟩ | - | s' | ⟨⟨⟩, n, f, h'⟩ <;>
    try rfl
  case finite.negative.finite.negative =>
    show some ((compare e f).then (compare m n)).swap = some (compare _ _)
    rw [compare_toLex, compare_neg, compare_neg, ← Ordering.swap_then, compare_natCast]
  case finite.positive.finite.positive =>
    show some ((compare e f).then (compare m n)) = some (compare _ _)
    rw [compare_toLex, compare_natCast]

theorem le_iff_place {u v : UnpackedFloat} :
    u.le v = true ↔ ∃ a ∈ place u, ∃ b ∈ place v, a ≤ b := by
  rw [UnpackedFloat.le, compare_eq_place]
  cases place u <;> cases place v <;> simp [Ordering.isLE_iff_ne_gt, compare_le_iff_le]

theorem lt_iff_place {u v : UnpackedFloat} :
    u.lt v = true ↔ ∃ a ∈ place u, ∃ b ∈ place v, a < b := by
  rw [UnpackedFloat.lt, compare_eq_place]
  cases place u <;> cases place v <;> simp [compare_lt_iff_lt]

theorem le_iff {x y : Float} : x ≤ y ↔ x.toModel.unpack.le y.toModel.unpack = true := by
  show decide (x.toModel ≤ y.toModel) = true ↔ _
  rw [decide_eq_true_iff]
  rfl

theorem le_trans {x y z : Float} (hxy : x ≤ y) (hyz : y ≤ z) : x ≤ z := by
  rw [le_iff, le_iff_place] at hxy hyz ⊢
  obtain ⟨a, ha, b, hb, hab⟩ := hxy
  obtain ⟨b', hb', c, hc, hbc⟩ := hyz
  obtain rfl : b = b' := Option.mem_unique hb hb'
  exact ⟨a, ha, c, hc, hab.trans hbc⟩

/-! ## Doubles that are not negative -/

/-- The double is one of the zeros, positive or infinite. -/
inductive Nonneg : UnpackedFloat → Prop
  | zero (s : Sign) : Nonneg (.zero s)
  | finite {m : ℕ} {e : ℤ} (hm : 0 < m) :
      Canonical m e → e ≤ 971 → Nonneg (.finite .positive m e hm)
  | infinity : Nonneg (.infinity .positive)

theorem nonneg_iff {x : Float} : 0.0 ≤ x ↔ Nonneg x.toModel.unpack := by
  have hzero : (0.0 : Float).toModel.unpack = .zero .positive := rfl
  rw [le_iff, hzero]
  constructor
  · intro h
    cases hunpack : x.toModel.unpack with
    | notANumber =>
        rw [hunpack] at h
        cases h
    | infinity s =>
        rw [hunpack] at h
        cases s with
        | negative => cases h
        | positive => exact .infinity
    | zero s => exact .zero s
    | finite s m e hm =>
        rw [hunpack] at h
        obtain ⟨hcanonical, hmax⟩ := canonical_unpack hunpack
        cases s with
        | negative => cases h
        | positive => exact .finite hm hcanonical hmax
  · intro h
    generalize x.toModel.unpack = u at h
    cases h with
    | zero | finite | infinity => rfl

/-- The sum of two doubles, unpacked again. -/
def sum (u v : UnpackedFloat) : UnpackedFloat :=
  UnpackedFloat.unpack .binary64 (UnpackedFloat.pack .binary64 (UnpackedFloat.add .binary64 u v))

theorem unpack_add (x y : Float) :
    (x + y).toModel.unpack = sum x.toModel.unpack y.toModel.unpack := rfl

theorem isLE_then {e f : ℤ} {m n : ℕ} :
    ((compare e f).then (compare m n)).isLE = true ↔ e < f ∨ e = f ∧ m ≤ n := by
  rw [Ordering.isLE_then_iff_or]
  simp [Int.compare_eq_lt, Nat.isLE_compare]

theorem le_finite {m n : ℕ} {e f : ℤ} (hm : 0 < m) (hn : 0 < n) (h : e < f ∨ e = f ∧ m ≤ n) :
    (UnpackedFloat.finite .positive m e hm).le (.finite .positive n f hn) = true :=
  isLE_then.2 h

theorem add_finite {m n : ℕ} {e f : ℤ} (hm : 0 < m) (hn : 0 < n) :
    UnpackedFloat.add .binary64 (.finite .positive m e hm) (.finite .positive n f hn) =
      UnpackedFloat.round .binary64 .positive
        (m * 2 ^ (e - min e f).toNat + n * 2 ^ (f - min e f).toNat) (min e f) := by
  have hpos : compare (((m * 2 ^ (e - min e f).toNat +
      n * 2 ^ (f - min e f).toNat : ℕ) : ℤ)) 0 = .gt := by
    rw [Int.compare_eq_gt]
    have := Nat.mul_pos hm (Nat.two_pow_pos (e - min e f).toNat)
    omega
  show UnpackedFloat.normalize .binary64
    (((m <<< (e - min e f).toNat : ℕ) : ℤ) + (n <<< (f - min e f).toNat : ℕ)) (min e f)
    .positive = _
  simp only [Nat.shiftLeft_eq, UnpackedFloat.normalize, ← Int.natCast_add, hpos,
    Int.toNat_natCast]

/-- The exact sum reaches both terms, so the rounded one does, unless it is infinite. -/
theorem finite_le_sum {m n : ℕ} {e f : ℤ} (hm : 0 < m) (hn : 0 < n) (hu : Canonical m e)
    (hv : Canonical n f) :
    (UnpackedFloat.finite .positive m e hm).le
        (sum (.finite .positive m e hm) (.finite .positive n f hn)) = true ∧
      (UnpackedFloat.finite .positive n f hn).le
        (sum (.finite .positive m e hm) (.finite .positive n f hn)) = true := by
  obtain ⟨r, g, hr, hround, hcanonical, hfirst⟩ :=
    exists_round .positive hu hm (min_le_left e f) (Nat.le_add_right _ _)
  obtain ⟨r', g', hr', hround', -, hsecond⟩ :=
    exists_round .positive hv hn (min_le_right e f) (Nat.le_add_left _ _)
  obtain ⟨-, rfl, rfl⟩ := UnpackedFloat.finite.inj (hround.symm.trans hround')
  unfold sum
  rw [add_finite, hround, unpack_pack_finite .positive hcanonical hr]
  by_cases hlarge : 971 < g
  · rw [if_pos hlarge]
    exact ⟨rfl, rfl⟩
  · rw [if_neg hlarge]
    exact ⟨le_finite hm hr hfirst, le_finite hn hr hsecond⟩

theorem unpack_pack_of_le {m : ℕ} {e : ℤ} (hm : 0 < m) (hcanonical : Canonical m e)
    (hmax : e ≤ 971) :
    UnpackedFloat.unpack .binary64 (UnpackedFloat.pack .binary64 (.finite .positive m e hm)) =
      .finite .positive m e hm :=
  (unpack_pack_finite .positive hcanonical hm).trans (if_neg (Int.not_lt.2 hmax))

theorem Nonneg.le_infinity {u : UnpackedFloat} (hu : Nonneg u) :
    u.le (.infinity .positive) = true := by
  cases hu with
  | zero | finite | infinity => rfl

theorem Nonneg.sum_infinity {u : UnpackedFloat} (hu : Nonneg u) :
    sum u (.infinity .positive) = .infinity .positive := by
  cases hu with
  | zero | finite | infinity => exact unpack_pack_infinity .positive

theorem Nonneg.infinity_sum {v : UnpackedFloat} (hv : Nonneg v) :
    sum (.infinity .positive) v = .infinity .positive := by
  cases hv with
  | zero | finite | infinity => exact unpack_pack_infinity .positive

theorem Nonneg.le_sum {u v : UnpackedFloat} (hu : Nonneg u) (hv : Nonneg v) :
    u.le (sum u v) = true ∧ v.le (sum u v) = true := by
  cases hu with
  | zero s =>
      cases hv with
      | zero s' => cases s <;> cases s' <;> exact ⟨rfl, rfl⟩
      | @finite n f hn hcanonical hmax =>
          -- a sum with a zero is the other term, which comes back from its bits
          have hsum : sum (.zero s) (.finite .positive n f hn) = .finite .positive n f hn :=
            unpack_pack_of_le hn hcanonical hmax
          rw [hsum]
          exact ⟨rfl, le_finite hn hn (.inr ⟨rfl, Nat.le_refl _⟩)⟩
      | infinity =>
          rw [Nonneg.sum_infinity (.zero s)]
          exact ⟨rfl, rfl⟩
  | @finite m e hm hcanonical hmax =>
      cases hv with
      | zero s' =>
          have hsum : sum (.finite .positive m e hm) (.zero s') = .finite .positive m e hm :=
            unpack_pack_of_le hm hcanonical hmax
          rw [hsum]
          exact ⟨le_finite hm hm (.inr ⟨rfl, Nat.le_refl _⟩), rfl⟩
      | finite hn hcanonical' => exact finite_le_sum hm hn hcanonical hcanonical'
      | infinity =>
          rw [Nonneg.sum_infinity (.finite hm hcanonical hmax)]
          exact ⟨rfl, rfl⟩
  | infinity =>
      rw [hv.infinity_sum]
      exact ⟨rfl, hv.le_infinity⟩

/-- Adding what is not negative makes no double smaller. -/
theorem le_add {x y : Float} (hx : 0.0 ≤ x) (hy : 0.0 ≤ y) : x ≤ x + y ∧ y ≤ x + y := by
  rw [le_iff, le_iff, unpack_add]
  exact (nonneg_iff.1 hx).le_sum (nonneg_iff.1 hy)

end Lindenmayer.Double
