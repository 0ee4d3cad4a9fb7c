import Lindenmayer.Decimal.Binary
import Lindenmayer.Proofs.Double.Packing

/-!
# Doubles told apart

A double that is a number is known by what unpacking makes of it (`eq_of_unpack`), and unpacking
gives back what was packed, also through a negation (`unpack_neg`). What a double is taken apart to
has the same sign, mantissa and exponent (`Content.ofFloat_cases`), and they can be put together
again (`Magnitude.unpack_ofBits`).
-/

namespace Lindenmayer.Double

open Float.Model Float.Model.UnpackedFloat

/-! ## Three fields -/

/-- A sign, an exponent and a mantissa as one whole number. -/
def fields (s : Sign) (e m : ℕ) : ℕ := s.toBitVec.toNat * 2 ^ 63 + e * 2 ^ 52 + m

theorem toNat_packComponents (s : Sign) (e : BitVec 11) (m : BitVec 52) :
    (packComponents .binary64 s e m).toNat = fields s e.toNat m.toNat := by
  unfold packComponents fields
  rw [BitVec.toNat_append, ← Nat.shiftLeft_add_eq_or_of_lt m.isLt, BitVec.toNat_append,
    ← Nat.shiftLeft_add_eq_or_of_lt e.isLt, Nat.shiftLeft_eq, Nat.shiftLeft_eq]
  show (s.toBitVec.toNat * 2 ^ 11 + e.toNat) * 2 ^ 52 + m.toNat = _
  omega

/-- Sixty-four bits are a sign, an exponent and a mantissa. -/
theorem exists_packComponents (b : BitVec 64) :
    ∃ s e m, b = packComponents .binary64 s e m := by
  have hb := b.isLt
  let s : Sign := if b.toNat / 2 ^ 63 = 0 then .positive else .negative
  have hs : s.toBitVec.toNat = b.toNat / 2 ^ 63 := by
    by_cases hzero : b.toNat / 2 ^ 63 = 0
    · simp only [s, if_pos hzero]
      exact hzero.symm
    · simp only [s, if_neg hzero]
      show 1 = _
      omega
  refine ⟨s, .ofNat 11 (b.toNat / 2 ^ 52), .ofNat 52 b.toNat, BitVec.eq_of_toNat_eq ?_⟩
  rw [toNat_packComponents, fields, hs, BitVec.toNat_ofNat, BitVec.toNat_ofNat]
  omega

/-! ## There and back -/

theorem unpack_pack_zero (s : Sign) :
    UnpackedFloat.unpack .binary64 (UnpackedFloat.pack .binary64 (.zero s)) = .zero s := by
  cases s <;> rfl

theorem unpack_pack_unpack (b : BitVec Format.binary64.numBits) :
    UnpackedFloat.unpack .binary64
      (UnpackedFloat.pack .binary64 (UnpackedFloat.unpack .binary64 b)) =
      UnpackedFloat.unpack .binary64 b := by
  cases hb : UnpackedFloat.unpack .binary64 b with
  | notANumber => rfl
  | infinity s => exact unpack_pack_infinity s
  | zero s => exact unpack_pack_zero s
  | finite s m e hm =>
      obtain ⟨hcanonical, hle⟩ := canonical_unpack hb
      rw [unpack_pack_finite s hcanonical hm, if_neg (by omega)]

theorem unpack_ofBits (word : UInt64) :
    (Float.ofBits word).toModel.unpack = UnpackedFloat.unpack .binary64 word.toBitVec :=
  unpack_pack_unpack word.toBitVec

theorem unpack_neg (x : Float) : (-x).toModel.unpack = x.toModel.unpack.neg := by
  show UnpackedFloat.unpack .binary64 (UnpackedFloat.pack .binary64 x.toModel.unpack.neg) = _
  cases hx : x.toModel.unpack with
  | notANumber => rfl
  | infinity s => exact unpack_pack_infinity (-s)
  | zero s => exact unpack_pack_zero (-s)
  | finite s m e hm =>
      obtain ⟨hcanonical, hle⟩ := canonical_unpack hx
      show UnpackedFloat.unpack .binary64
        (UnpackedFloat.pack .binary64 (.finite (-s) m e hm)) = .finite (-s) m e hm
      rw [unpack_pack_finite (-s) hcanonical hm, if_neg (by omega)]

/-! ## Bits as a number -/

/-- What the bits of a double are as a whole number, NaN left aside. -/
def bits : UnpackedFloat → ℕ
  | .notANumber => 0
  | .infinity s => fields s 2047 0
  | .zero s => fields s 0 0
  | .finite s m e _ =>
      if 2 ^ 52 ≤ m then fields s (e + 1075).toNat (m - 2 ^ 52) else fields s 0 m

theorem bits_finite (s : Sign) {m : ℕ} (e : ℤ) (hm : 0 < m) :
    bits (.finite s m e hm) =
      if 2 ^ 52 ≤ m then fields s (e + 1075).toNat (m - 2 ^ 52) else fields s 0 m := rfl

theorem toNat_eq_bits {b : BitVec 64} (h : UnpackedFloat.unpack .binary64 b ≠ .notANumber) :
    b.toNat = bits (UnpackedFloat.unpack .binary64 b) := by
  obtain ⟨s, e, m, rfl⟩ := exists_packComponents b
  have hm : m.toNat < 2 ^ 52 := m.isLt
  rw [unpack_packComponents] at h ⊢
  rw [toNat_packComponents]
  rcases ofFields_cases s e m with
    hnan | ⟨rfl, rfl, hinfinity⟩ | ⟨rfl, rfl, hzero⟩ | ⟨rfl, hpos, hsmall⟩ | ⟨-, hzero, hpos, hfull⟩
  · exact absurd hnan h
  · rw [hinfinity]
    rfl
  · rw [hzero]
    rfl
  · rw [hsmall, bits_finite, if_neg (by omega)]
    rfl
  · have hsome : e.toNat ≠ 0 := fun heq => hzero (BitVec.eq_of_toNat_eq heq)
    have hexponent : ((e.toNat : ℤ) - 1075 + 1075).toNat = e.toNat := by omega
    have hmantissa : 2 ^ 52 + m.toNat - 2 ^ 52 = m.toNat := by omega
    rw [hfull, bits_finite, if_pos (by omega), hexponent, hmantissa]

theorem unpack_ne_notANumber {x : Float} (h : x.isNaN = false) :
    x.toModel.unpack ≠ .notANumber := by
  intro hnan
  have : x.isNaN = true := congrArg UnpackedFloat.isNaN hnan
  rw [h] at this
  cases this

theorem isNaN_eq_false_of_isFinite {x : Float} (h : x.isFinite = true) : x.isNaN = false := by
  have hfinite : x.toModel.unpack.isFinite = true := h
  show x.toModel.unpack.isNaN = false
  cases hunpack : x.toModel.unpack with
  | notANumber =>
      rw [hunpack] at hfinite
      cases hfinite
  | _ => rfl

theorem toNat_toBits {x : Float} (h : x.isNaN = false) :
    x.toBits.toNat = bits x.toModel.unpack :=
  toNat_eq_bits (unpack_ne_notANumber h)

/-- A number is told by what its bits unpack to. -/
theorem eq_of_unpack {x y : Float} (hx : x.isNaN = false)
    (h : x.toModel.unpack = y.toModel.unpack) : x = y := by
  have hy : y.isNaN = false := (congrArg UnpackedFloat.isNaN h).symm.trans hx
  have hbits : x.toBits.toNat = y.toBits.toNat := by
    rw [toNat_toBits hx, toNat_toBits hy, h]
  obtain ⟨⟨b, hb⟩⟩ := x
  obtain ⟨⟨c, hc⟩⟩ := y
  obtain rfl : b = c := UInt64.toNat_inj.1 hbits
  rfl

end Lindenmayer.Double

namespace Lindenmayer.Decimal

open Float.Model Float.Model.UnpackedFloat

/-! ## Doubles taken apart -/

/-- The sign of what is negative or is not. -/
def signOf (negative : Bool) : Sign := if negative then .negative else .positive

theorem signOf_isNegative (s : Sign) : signOf (decide (s.toBitVec.toNat = 1)) = s := by
  cases s <;> rfl

theorem Content.ofBits_fields (s : Sign) {e m : ℕ} (he : e < 2 ^ 11) (hm : m < 2 ^ 52) :
    Content.ofBits (Double.fields s e m) =
      let negative := decide (s.toBitVec.toNat = 1)
      if e = 2047 then if m = 0 then .infinite negative else .nan
      else if e = 0 then .finite negative ⟨m, leastExponent, false⟩
      else .finite negative ⟨2 ^ 52 + m, leastExponent + (e - 1 : ℕ), m = 0 && 1 < e⟩ := by
  have hs : s.toBitVec.toNat < 2 := s.toBitVec.isLt
  have hsign : Double.fields s e m / 2 ^ 63 % 2 = s.toBitVec.toNat := by
    unfold Double.fields
    omega
  have hbiased : Double.fields s e m / 2 ^ 52 % 2 ^ 11 = e := by
    unfold Double.fields
    omega
  have hfraction : Double.fields s e m % 2 ^ 52 = m := by
    unfold Double.fields
    omega
  simp only [Content.ofBits, fractionBits, Nat.pow_eq, hsign, hbiased, hfraction]

namespace Magnitude

/-- The magnitude is one that a double has. -/
structure IsDouble (v : Magnitude) : Prop where
  canonical : Double.Canonical v.mantissa v.exponent
  most : v.exponent ≤ 971
  narrow_iff : v.narrow = true ↔ v.mantissa = 2 ^ 52 ∧ -1074 < v.exponent

/-- The double of a sign and a magnitude. -/
def unpacked (s : Sign) (v : Magnitude) : UnpackedFloat :=
  if h : 0 < v.mantissa then .finite s v.mantissa v.exponent h else .zero s

/-- The bits of the positive double. -/
def bits (v : Magnitude) : ℕ := (v.exponent + 1074).toNat * 2 ^ 52 + v.mantissa

end Magnitude

/-- What a number is taken apart to is what its bits unpack to. -/
theorem Content.ofFloat_cases {x : Float} (h : x.isNaN = false) :
    (∃ negative, Content.ofFloat x = .infinite negative ∧
      x.toModel.unpack = .infinity (signOf negative)) ∨
    ∃ negative v, Content.ofFloat x = .finite negative v ∧ v.IsDouble ∧
      x.toModel.unpack = v.unpacked (signOf negative) := by
  unfold Content.ofFloat
  rw [Double.toNat_toBits h]
  cases hunpack : x.toModel.unpack with
  | notANumber => exact absurd hunpack (Double.unpack_ne_notANumber h)
  | infinity s =>
      refine .inl ⟨_, Content.ofBits_fields s (e := 2047) (m := 0) (by decide) (by decide), ?_⟩
      rw [signOf_isNegative]
  | zero s =>
      refine .inr ⟨_, _, Content.ofBits_fields s (e := 0) (m := 0) (by decide) (by decide),
        ⟨⟨by decide, by decide, by decide⟩, by decide, by decide⟩, ?_⟩
      rw [signOf_isNegative]
      rfl
  | finite s m e hm =>
      obtain ⟨hcanonical, hle⟩ := Double.canonical_unpack hunpack
      have hbits := hcanonical.bits
      have hleast := hcanonical.least
      let v : Magnitude := ⟨m, e, decide (m = 2 ^ 52 ∧ -1074 < e)⟩
      have hdouble : v.IsDouble := ⟨hcanonical, hle, by simp [v]⟩
      refine .inr ⟨decide (s.toBitVec.toNat = 1), v, ?_, hdouble, ?_⟩
      · by_cases hfull : 2 ^ 52 ≤ m
        · have hmantissa : 2 ^ 52 + (m - 2 ^ 52) = m := by omega
          have hexponent : leastExponent + ((e + 1075).toNat - 1 : ℕ) = e := by
            unfold leastExponent
            omega
          have hnarrow : (m - 2 ^ 52 = 0 && 1 < (e + 1075).toNat) = v.narrow := by
            rw [Bool.eq_iff_iff, hdouble.narrow_iff, Bool.and_eq_true, decide_eq_true_iff,
              decide_eq_true_iff]
            show _ ↔ m = 2 ^ 52 ∧ -1074 < e
            omega
          rw [Double.bits_finite, if_pos hfull, Content.ofBits_fields s (by omega) (by omega)]
          simp only
          rw [if_neg (by omega), if_neg (by omega), hmantissa, hexponent, hnarrow]
        · obtain rfl : e = -1074 := hcanonical.full.resolve_left hfull
          have hnarrow : v.narrow = false := by simp [v]
          rw [Double.bits_finite, if_neg hfull, Content.ofBits_fields s (by decide) (by omega)]
          simp only
          rw [if_neg (by decide), if_pos trivial, ← hnarrow]
          rfl
      · rw [signOf_isNegative, Magnitude.unpacked, dif_pos hm]

namespace Magnitude

theorem bits_lt {v : Magnitude} (h : v.IsDouble) : v.bits < 2047 * 2 ^ 52 := by
  have hbits := h.canonical.bits
  have hleast := h.canonical.least
  have hmost := h.most
  unfold bits
  omega

theorem unpacked_of_pos (s : Sign) {v : Magnitude} (h : 0 < v.mantissa) :
    v.unpacked s = .finite s v.mantissa v.exponent h := dif_pos h

theorem unpacked_of_zero (s : Sign) {v : Magnitude} (h : v.mantissa = 0) :
    v.unpacked s = .zero s := dif_neg (Nat.not_lt.2 (Nat.le_of_eq h))

theorem bits_unpacked {v : Magnitude} (h : v.IsDouble) :
    Double.bits (v.unpacked .positive) = v.bits := by
  have hleast := h.canonical.least
  have hsign : Sign.positive.toBitVec.toNat = 0 := rfl
  unfold bits
  rcases Nat.eq_zero_or_pos v.mantissa with hnone | hpos
  · have hexponent : v.exponent = -1074 := h.canonical.full.resolve_left (by omega)
    rw [unpacked_of_zero .positive hnone]
    show Double.fields .positive 0 0 = _
    simp [Double.fields, hsign, hexponent, hnone]
  · rw [unpacked_of_pos .positive hpos, Double.bits_finite, Double.fields, Double.fields, hsign]
    by_cases hfull : 2 ^ 52 ≤ v.mantissa
    · rw [if_pos hfull]
      omega
    · have hexponent : v.exponent = -1074 := h.canonical.full.resolve_left hfull
      rw [if_neg hfull]
      omega

theorem unpack_pack_unpacked {v : Magnitude} (h : v.IsDouble) :
    UnpackedFloat.unpack .binary64 (UnpackedFloat.pack .binary64 (v.unpacked .positive)) =
      v.unpacked .positive := by
  have hmost := h.most
  rcases Nat.eq_zero_or_pos v.mantissa with hnone | hpos
  · rw [unpacked_of_zero .positive hnone]
    exact Double.unpack_pack_zero .positive
  · rw [unpacked_of_pos .positive hpos, Double.unpack_pack_finite .positive h.canonical,
      if_neg (by omega)]

/-- The bits of a magnitude unpack to the positive double. -/
theorem unpack_ofBits {v : Magnitude} (h : v.IsDouble) :
    (Float.ofBits v.bits.toUInt64).toModel.unpack = v.unpacked .positive := by
  have hlt := bits_lt h
  have hnumber : v.unpacked .positive ≠ .notANumber := by
    rcases Nat.eq_zero_or_pos v.mantissa with hnone | hpos
    · rw [unpacked_of_zero .positive hnone]
      nofun
    · rw [unpacked_of_pos .positive hpos]
      nofun
  have hback := unpack_pack_unpacked h
  have htoNat : (UnpackedFloat.pack .binary64 (v.unpacked .positive)).toNat = v.bits := by
    rw [Double.toNat_eq_bits (by rw [hback]; exact hnumber), hback, bits_unpacked h]
  have hword : v.bits.toUInt64.toBitVec = UnpackedFloat.pack .binary64 (v.unpacked .positive) := by
    apply BitVec.eq_of_toNat_eq
    rw [htoNat, UInt64.toNat_toBitVec, UInt64.toNat_ofNat']
    omega
  rw [Double.unpack_ofBits, hword, hback]

theorem neg_unpacked (v : Magnitude) : (v.unpacked .positive).neg = v.unpacked .negative := by
  rcases Nat.eq_zero_or_pos v.mantissa with hnone | hpos
  · rw [unpacked_of_zero .positive hnone, unpacked_of_zero .negative hnone]
    rfl
  · rw [unpacked_of_pos .positive hpos, unpacked_of_pos .negative hpos]
    rfl

end Magnitude

end Lindenmayer.Decimal
