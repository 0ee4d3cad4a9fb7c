import Lindenmayer.Proofs.Double.Rounding

/-!
# Doubles and their bits

A double is held as bits and computed with unpacked. Unpacking its bits gives a canonical mantissa
(`canonical_unpack`), and what has one comes back from its bits, where it is not too large for a
double and becomes infinite (`unpack_pack_finite`).
-/

namespace Lindenmayer.Double

open Float.Model Float.Model.UnpackedFloat

/-! ## Fields of the bits -/

/-- The leading bit of a mantissa is not held. -/
theorem toNat_one_append (m : BitVec 52) : (1#1 ++ m).toNat = 2 ^ 52 + m.toNat := by
  rw [BitVec.toNat_append, ← Nat.shiftLeft_add_eq_or_of_lt m.isLt]
  rfl

/-- The sign that was packed is read again. -/
theorem ofBitVec_unpackSign (s : Sign) (e : BitVec 11) (m : BitVec 52) :
    Sign.ofBitVec (unpackSign (packComponents .binary64 s e m)) = s := by
  have hsign : unpackSign (packComponents .binary64 s e m) = s.toBitVec := by
    show (s.toBitVec ++ e ++ m).extractLsb' 63 1 = s.toBitVec
    rw [BitVec.extractLsb'_append_eq_of_le (by decide),
      BitVec.extractLsb'_append_eq_of_le (by decide)]
    cases s <;> rfl
  rw [hsign]
  cases s <;> rfl

theorem finite_congr (s : Sign) {m n : ℕ} {e f : ℤ} (hm : 0 < m) (hn : 0 < n) (hmn : m = n)
    (hef : e = f) : UnpackedFloat.finite s m e hm = .finite s n f hn := by
  subst hmn hef
  rfl

/-- The double that has the three fields. -/
def ofFields (s : Sign) (e : BitVec 11) (m : BitVec 52) : UnpackedFloat :=
  if e = -1#11 then if m = 0#52 then .infinity s else .notANumber
  else if e = 0#11 then
    if h : m = 0#52 then .zero s
    else .finite s m.toNat (-1074) (by simpa [BitVec.toNat_pos, BitVec.pos_iff_ne_zero])
  else .finite s (2 ^ 52 + m.toNat) (e.toNat - 1075) (by omega)

theorem unpack_eq_ofFields (b : BitVec Format.binary64.numBits) :
    UnpackedFloat.unpack .binary64 b =
      ofFields (Sign.ofBitVec (unpackSign b)) (unpackExponent b) (unpackMantissa b) := by
  unfold UnpackedFloat.unpack ofFields
  dsimp only
  by_cases hones : unpackExponent b = -1#11
  · rw [if_pos hones, if_pos hones]
  rw [if_neg hones, if_neg hones]
  by_cases hzero : unpackExponent b = 0#11
  · rw [if_pos hzero, if_pos hzero]
    by_cases hnone : unpackMantissa b = 0#52
    · rw [dif_pos hnone, dif_pos hnone]
    · rw [dif_neg hnone, dif_neg hnone]
      exact finite_congr _ _ _ rfl (by rw [hzero]; rfl)
  · rw [if_neg hzero, if_neg hzero]
    exact finite_congr _ _ _ (toNat_one_append _) rfl

theorem ofFields_cases (s : Sign) (e : BitVec 11) (m : BitVec 52) :
    ofFields s e m = .notANumber ∨
    e = -1#11 ∧ m = 0#52 ∧ ofFields s e m = .infinity s ∨
    e = 0#11 ∧ m = 0#52 ∧ ofFields s e m = .zero s ∨
    e = 0#11 ∧ (∃ hm, ofFields s e m = .finite s m.toNat (-1074) hm) ∨
    e ≠ -1#11 ∧ e ≠ 0#11 ∧
      ∃ hm, ofFields s e m = .finite s (2 ^ 52 + m.toNat) (e.toNat - 1075) hm := by
  unfold ofFields
  by_cases hones : e = -1#11
  · rw [if_pos hones]
    by_cases hinfinity : m = 0#52
    · exact .inr (.inl ⟨hones, hinfinity, if_pos hinfinity⟩)
    · exact .inl (if_neg hinfinity)
  rw [if_neg hones]
  by_cases hzero : e = 0#11
  · rw [if_pos hzero]
    by_cases hnone : m = 0#52
    · exact .inr (.inr (.inl ⟨hzero, hnone, dif_pos hnone⟩))
    · exact .inr (.inr (.inr (.inl ⟨hzero, _, dif_neg hnone⟩)))
  · exact .inr (.inr (.inr (.inr ⟨hones, hzero, _, if_neg hzero⟩)))

theorem unpack_packComponents (s : Sign) (e : BitVec 11) (m : BitVec 52) :
    UnpackedFloat.unpack .binary64 (packComponents .binary64 s e m) = ofFields s e m := by
  rw [unpack_eq_ofFields, ofBitVec_unpackSign, unpackExponent_packComponents,
    unpackMantissa_packComponents]

theorem pack_eq (s : Sign) {m : ℕ} {e : ℤ} (h : Canonical m e) (hm : 0 < m) :
    UnpackedFloat.pack .binary64 (.finite s m e hm) =
      if 971 < e then packedInfinity .binary64 s
      else if 2 ^ 52 ≤ m then
        packComponents .binary64 s (BitVec.ofNat 11 (e + 1075).toNat) (BitVec.ofNat 52 m)
      else packComponents .binary64 s 0#11 (BitVec.ofNat 52 m) := by
  have hleast := h.least
  have hbias : (e + (Format.binary64.exponentBias : ℤ) + (52 : ℕ)).toNat = (e + 1075).toNat := by
    show (e + (1023 : ℕ) + (52 : ℕ)).toNat = _
    omega
  have hlog : m.log2 + 1 = Format.binary64.mantissaBits ↔ 2 ^ 52 ≤ m := by
    have hbits : m.log2 < 53 := (Nat.log2_lt hm.ne').2 h.bits
    have hfull : 52 ≤ m.log2 ↔ 2 ^ 52 ≤ m := Nat.le_log2 hm.ne'
    show m.log2 + 1 = 53 ↔ _
    omega
  have hmax : 2 ^ 11 ≤ (e + 1075).toNat + 1 ↔ 971 < e := by omega
  show (if 2 ^ 11 ≤ (e + (Format.binary64.exponentBias : ℤ) + (52 : ℕ)).toNat + 1 then
      packedInfinity .binary64 s
    else if m.log2 + 1 = Format.binary64.mantissaBits then
      packComponents .binary64 s (BitVec.ofNat 11
        (e + (Format.binary64.exponentBias : ℤ) + (52 : ℕ)).toNat) (BitVec.ofNat 52 m)
    else packComponents .binary64 s 0#11 (BitVec.ofNat 52 m)) = _
  simp only [hbias, hlog, hmax]

/-! ## There and back -/

theorem unpack_pack_infinity (s : Sign) :
    UnpackedFloat.unpack .binary64 (UnpackedFloat.pack .binary64 (.infinity s)) = .infinity s := by
  cases s <;> rfl

/-- Words are told apart by what they hold. -/
theorem ofNat_ne {w n k : ℕ} (hn : n % 2 ^ w ≠ k % 2 ^ w) :
    BitVec.ofNat w n ≠ BitVec.ofNat w k := by
  intro heq
  have := congrArg BitVec.toNat heq
  rw [BitVec.toNat_ofNat, BitVec.toNat_ofNat] at this
  exact hn this

/-- What a double can hold comes back from its bits; what is too large for it is infinite. -/
theorem unpack_pack_finite (s : Sign) {m : ℕ} {e : ℤ} (h : Canonical m e) (hm : 0 < m) :
    UnpackedFloat.unpack .binary64 (UnpackedFloat.pack .binary64 (.finite s m e hm)) =
      if 971 < e then .infinity s else .finite s m e hm := by
  have hleast := h.least
  have hbits := h.bits
  rw [pack_eq s h hm]
  by_cases hlarge : 971 < e
  · rw [if_pos hlarge, if_pos hlarge]
    exact unpack_pack_infinity s
  rw [if_neg hlarge, if_neg hlarge]
  by_cases hfull : 2 ^ 52 ≤ m
  · -- the exponent is neither of the two that stand for something else
    have hones : BitVec.ofNat 11 (e + 1075).toNat ≠ -1#11 :=
      ofNat_ne (k := 2047) (by omega)
    have hzero : BitVec.ofNat 11 (e + 1075).toNat ≠ 0#11 := ofNat_ne (by omega)
    have hexponent : (BitVec.ofNat 11 (e + 1075).toNat).toNat = (e + 1075).toNat := by
      rw [BitVec.toNat_ofNat, Nat.mod_eq_of_lt (by omega)]
    have hmantissa : 2 ^ 52 + (BitVec.ofNat 52 m).toNat = m := by
      rw [BitVec.toNat_ofNat]
      omega
    rw [if_pos hfull, unpack_packComponents, ofFields, if_neg hones, if_neg hzero]
    exact finite_congr s _ hm hmantissa (by omega)
  · obtain rfl : e = -1074 := h.full.resolve_left hfull
    have hzero : BitVec.ofNat 52 m ≠ 0#52 := ofNat_ne (by omega)
    have hmantissa : (BitVec.ofNat 52 m).toNat = m := by
      rw [BitVec.toNat_ofNat]
      omega
    rw [if_neg hfull, unpack_packComponents, ofFields, if_neg (by decide), if_pos rfl,
      dif_neg hzero]
    exact finite_congr s _ hm hmantissa rfl

/-- The bits of a double hold a canonical mantissa. -/
theorem canonical_unpack {b : BitVec Format.binary64.numBits} {s : Sign} {m : ℕ} {e : ℤ}
    {hm : 0 < m} (h : UnpackedFloat.unpack .binary64 b = .finite s m e hm) :
    Canonical m e ∧ e ≤ 971 := by
  have hmantissa : (unpackMantissa b).toNat < 2 ^ 52 := (unpackMantissa b).isLt
  have hexponent : (unpackExponent b).toNat < 2 ^ 11 := (unpackExponent b).isLt
  rw [unpack_eq_ofFields] at h
  rcases ofFields_cases (Sign.ofBitVec (unpackSign b)) (unpackExponent b) (unpackMantissa b) with
    hnan | ⟨-, -, hinfinity⟩ | ⟨-, -, hzero⟩ | ⟨-, hm', hsmall⟩ | ⟨hones, hzero, hm', hfull⟩
  · cases hnan.symm.trans h
  · cases hinfinity.symm.trans h
  · cases hzero.symm.trans h
  · obtain ⟨-, rfl, rfl⟩ := UnpackedFloat.finite.inj (hsmall.symm.trans h)
    exact ⟨⟨by omega, by omega, by omega⟩, by omega⟩
  · have hsome : (unpackExponent b).toNat ≠ 0 := fun heq => hzero (BitVec.eq_of_toNat_eq heq)
    have hall : (unpackExponent b).toNat ≠ 2 ^ 11 - 1 :=
      fun heq => hones (BitVec.eq_of_toNat_eq heq)
    obtain ⟨-, rfl, rfl⟩ := UnpackedFloat.finite.inj (hfull.symm.trans h)
    exact ⟨⟨by omega, by omega, by omega⟩, by omega⟩

end Lindenmayer.Double
