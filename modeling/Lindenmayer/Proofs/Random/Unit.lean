import Lindenmayer.Proofs.Double.Order
import Lindenmayer.Random.Stream

/-!
# Uniform draws

A draw is made of fifty-three random bits, which a double holds exactly, and of a power of two,
by which it is scaled exactly. So it is a double of a known form (`unpack_unit`), and not above one
(`unit_le_one`).
-/

namespace Lindenmayer

namespace Double

open Float.Model Float.Model.UnpackedFloat

/-- A number of fifty-three bits becomes canonical when zeros are added to it. -/
theorem canonical_of_lt {n : ℕ} {e : ℤ} (hpos : 0 < n) (hbits : n < 2 ^ 53) (he : -1074 ≤ e) :
    Canonical (n * 2 ^ (52 - n.log2)) e := by
  have hlog : n.log2 < 53 := (Nat.log2_lt hpos.ne').2 hbits
  have hscaled : 0 < n * 2 ^ (52 - n.log2) := Nat.mul_pos hpos (Nat.two_pow_pos _)
  have htop : (n * 2 ^ (52 - n.log2)).log2 = 52 := by
    rw [log2_mul_two_pow hpos]
    omega
  exact ⟨(Nat.log2_lt hscaled.ne').1 (by omega), he, .inl ((Nat.le_log2 hscaled.ne').1 htop.ge)⟩

/-- A word of fifty-three bits is held exactly. -/
theorem unpack_toFloat {word : UInt64} (hpos : 0 < word.toNat) (hbits : word.toNat < 2 ^ 53) :
    ∃ hm, word.toFloat.toModel.unpack =
      .finite .positive (word.toNat * 2 ^ (52 - word.toNat.log2)) (word.toNat.log2 - 52) hm := by
  obtain ⟨n, hn⟩ : ∃ n : ℕ, word.toNat = n := ⟨_, rfl⟩
  rw [hn] at hpos hbits ⊢
  have hlog : n.log2 < 53 := (Nat.log2_lt hpos.ne').2 hbits
  have hm : 0 < n * 2 ^ (52 - n.log2) := Nat.mul_pos hpos (Nat.two_pow_pos _)
  have hcanonical : Canonical (n * 2 ^ (52 - n.log2)) ((n.log2 : ℤ) - 52) :=
    canonical_of_lt hpos hbits (by omega)
  have hpositive : compare ((n : ℕ) : ℤ) 0 = .gt := Int.compare_eq_gt.2 (by omega)
  -- the digits that the mantissa lacks are added before it is rounded
  have htarget : max ((n.log2 : ℤ) + 0 - 52) (-1074) = n.log2 - 52 := by omega
  have hshift : (0 - ((n.log2 : ℤ) - 52)).toNat = 52 - n.log2 := by omega
  have hexponent : (0 : ℤ) - ((52 - n.log2 : ℕ) : ℤ) = n.log2 - 52 := by omega
  have hexact := roundWithAccuracy_of_canonical .positive hcanonical hm 0
  rw [Nat.pow_zero, Nat.mul_one, Int.natCast_zero, Int.sub_zero] at hexact
  have hword : UnpackedFloat.ofUInt64 .binary64 word =
      roundWithAccuracy .binary64 .positive (n * 2 ^ (52 - n.log2)) (n.log2 - 52) .exact := by
    simp only [UnpackedFloat.ofUInt64, UnpackedFloat.ofNat, UnpackedFloat.ofInt,
      UnpackedFloat.normalize, hn, hpositive, Int.toNat_natCast, UnpackedFloat.round,
      targetExponent_eq, htarget, decreaseExponent, hshift, Nat.shiftLeft_eq, hexponent]
  refine ⟨hm, ?_⟩
  show UnpackedFloat.unpack .binary64
    (UnpackedFloat.pack .binary64 (UnpackedFloat.ofUInt64 .binary64 word)) = _
  rw [hword, hexact, unpack_pack_of_le hm hcanonical (by omega)]

end Double

namespace RandomStream

open Float.Model Float.Model.UnpackedFloat

/-- A draw that is not zero has the bits of its word as mantissa. -/
theorem unpack_unit {word : UInt64} (hpos : 0 < word.toNat) (hbits : word.toNat < 2 ^ 53) :
    ∃ hm, (word.toFloat * unitStep).toModel.unpack =
      .finite .positive (word.toNat * 2 ^ (52 - word.toNat.log2)) (word.toNat.log2 - 105) hm := by
  obtain ⟨hm, hword⟩ := Double.unpack_toFloat hpos hbits
  have hlog : word.toNat.log2 < 53 := (Nat.log2_lt hpos.ne').2 hbits
  have hcanonical := Double.canonical_of_lt (e := word.toNat.log2 - 105) hpos hbits (by omega)
  have hstep : unitStep.toModel.unpack = .finite .positive (2 ^ 52) (-105) (by decide) := rfl
  have hexact := Double.roundWithAccuracy_of_canonical .positive hcanonical hm 52
  have hexponent : (word.toNat.log2 : ℤ) - 52 + -105 = word.toNat.log2 - 105 - (52 : ℕ) := by
    omega
  refine ⟨hm, ?_⟩
  show UnpackedFloat.unpack .binary64 (UnpackedFloat.pack .binary64 (UnpackedFloat.mul .binary64
    word.toFloat.toModel.unpack unitStep.toModel.unpack)) = _
  rw [hword, hstep]
  show UnpackedFloat.unpack .binary64 (UnpackedFloat.pack .binary64
    (roundWithAccuracy .binary64 .positive _ (word.toNat.log2 - 52 + -105) .exact)) = _
  rw [hexponent, hexact, Double.unpack_pack_of_le hm hcanonical (by omega)]

/-- No draw is above one. -/
theorem unit_le_one (stream : RandomStream) : stream.unit.1 ≤ 1.0 := by
  show (stream.next.1 >>> 11).toFloat * unitStep ≤ 1.0
  have hbits : (stream.next.1 >>> 11).toNat < 2 ^ 53 := by
    have := stream.next.1.toNat_lt
    rw [UInt64.toNat_shiftRight]
    show stream.next.1.toNat >>> 11 < 2 ^ 53
    rw [Nat.shiftRight_eq_div_pow]
    omega
  generalize stream.next.1 >>> 11 = word at hbits ⊢
  have hone : (1.0 : Float).toModel.unpack = .finite .positive (2 ^ 52) (-52) (by decide) := by
    rfl
  rcases Nat.eq_zero_or_pos word.toNat with hzero | hpos
  · obtain rfl : word = 0 := UInt64.toNat.inj hzero
    decide +kernel
  · obtain ⟨hm, hunit⟩ := unpack_unit hpos hbits
    have hlog : word.toNat.log2 < 53 := (Nat.log2_lt hpos.ne').2 hbits
    rw [Double.le_iff, hunit, hone]
    exact Double.le_finite hm _ (.inl (by omega))

end RandomStream

end Lindenmayer
