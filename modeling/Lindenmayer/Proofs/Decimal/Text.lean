import Lindenmayer.Decimal.Format
import Lindenmayer.Proofs.Decimal.Shortest
import Mathlib.Tactic.IntervalCases

/-!
# Decimal texts read back

A double that is written without an exponent is digits, a point and digits (`Pointed`). They make
up the shortest decimal, so they are read as the double again (`Format.exists_pointed`).
-/

namespace Lindenmayer.Decimal

/-- The digits before and behind a point. No zero stands in front of other digits. -/
structure Pointed (whole fraction : List Char) : Prop where
  whole_ne : whole ≠ []
  fraction_ne : fraction ≠ []
  whole_digits : ∀ c ∈ whole, c.isDigit = true
  fraction_digits : ∀ c ∈ fraction, c.isDigit = true
  leading : whole = ['0'] ∨ whole.head? ≠ some '0'

/-! ## Digits of a number -/

theorem ofDigitChars_digitChars (n : ℕ) : ofDigitChars (digitChars n) = n :=
  Nat.ofDigitChars_ten_toDigits

theorem ofDigitChars_append (front back : List Char) :
    ofDigitChars (front ++ back) = 10 ^ back.length * ofDigitChars front + ofDigitChars back :=
  (Nat.ofDigitChars_append 0).trans Nat.ofDigitChars_eq_ofDigitChars_zero

theorem ofDigitChars_replicate_zero (n : ℕ) : ofDigitChars (List.replicate n '0') = 0 :=
  Nat.ofDigitChars_replicate_zero

theorem isDigit_of_mem_replicate {n : ℕ} {c : Char} (h : c ∈ List.replicate n '0') :
    c.isDigit = true := by
  rw [List.eq_of_mem_replicate h]
  decide

theorem isDigit_of_mem_digitChars {n : ℕ} {c : Char} (h : c ∈ digitChars n) : c.isDigit = true :=
  Nat.isDigit_of_mem_toDigits (by decide) (by decide) h

theorem digitChars_ne_nil (n : ℕ) : digitChars n ≠ [] := Nat.toDigits_ne_nil

theorem digitChar_ne_zero {n : ℕ} (hpos : 0 < n) (hlt : n < 10) : n.digitChar ≠ '0' := by
  interval_cases n <;> decide

/-- The digits of a positive number do not start with a zero. -/
theorem head?_digitChars {n : ℕ} (hpos : 0 < n) : (digitChars n).head? ≠ some '0' := by
  induction n using Nat.strongRecOn with
  | ind n ih =>
      unfold digitChars at ih ⊢
      by_cases hlt : n < 10
      · rw [Nat.toDigits_of_lt_base hlt]
        exact fun h => digitChar_ne_zero hpos hlt (Option.some.inj h)
      · rw [Nat.toDigits_of_base_le (by decide) (by omega),
          List.head?_append_of_ne_nil _ Nat.toDigits_ne_nil]
        exact ih (n / 10) (by omega) (by omega)

/-! ## Digits with a point -/

/-- A point is put among digits or beside them, and does not change the number that they make up
with their power of ten. -/
structure Placed (digits : List Char) (point : ℤ) (whole fraction : List Char) : Prop where
  text : place true digits point = whole ++ '.' :: fraction
  pointed : Pointed whole fraction
  value : (ofDigitChars (whole ++ fraction) : ℚ) * 10 ^ (-(fraction.length : ℤ)) =
    ofDigitChars digits * 10 ^ (point - digits.length)

section

variable {digits : List Char} (hdigits : ∀ c ∈ digits, c.isDigit = true) (hne : digits ≠ [])
  {point : ℤ}

include hdigits hne

/-- Zeros stand between the point and the digits. -/
theorem placed_before (hsmall : point ≤ 0) :
    Placed digits point ['0'] (List.replicate (-point).toNat '0' ++ digits) where
  text := by rw [place, if_pos hsmall, List.singleton_append]
  pointed := by
    refine ⟨List.cons_ne_nil _ _, by simp [hne], ?_, fun c hc => ?_, .inl rfl⟩
    · exact fun _ => isDigit_of_mem_replicate (n := 1)
    · rcases List.mem_append.1 hc with hc | hc
      · exact isDigit_of_mem_replicate hc
      · exact hdigits c hc
  value := by
    have hlength : -((List.replicate (-point).toNat '0' ++ digits).length : ℤ) =
        point - digits.length := by
      rw [List.length_append, List.length_replicate]
      omega
    rw [hlength, ← List.append_assoc, ofDigitChars_append, ← List.replicate_one,
      ← List.replicate_add, ofDigitChars_replicate_zero, Nat.mul_zero, Nat.zero_add]

/-- Zeros stand behind the digits, and one more behind the point. -/
theorem placed_behind (hhead : digits.head? ≠ some '0') (hlarge : (digits.length : ℤ) ≤ point)
    (hsmall : ¬ point ≤ 0) :
    Placed digits point (digits ++ List.replicate (point.toNat - digits.length) '0') ['0'] where
  text := by rw [place, if_neg hsmall, if_pos hlarge, if_pos rfl]
  pointed := by
    refine ⟨by simp [hne], List.cons_ne_nil _ _, fun c hc => ?_, ?_, .inr ?_⟩
    · rcases List.mem_append.1 hc with hc | hc
      · exact hdigits c hc
      · exact isDigit_of_mem_replicate hc
    · exact fun _ => isDigit_of_mem_replicate (n := 1)
    · rwa [List.head?_append_of_ne_nil _ hne]
  value := by
    have hexponent : ((point.toNat - digits.length + 1 : ℕ) : ℤ) + -1 =
        point - digits.length := by omega
    rw [List.append_assoc, ofDigitChars_append, ← List.replicate_one, ← List.replicate_add,
      ofDigitChars_replicate_zero, List.length_replicate, Nat.add_zero, Nat.cast_mul,
      Nat.cast_pow, ← hexponent, zpow_add₀ (by norm_num), zpow_natCast]
    simp only [List.length_replicate]
    push_cast
    ring

/-- Digits stand on both sides. -/
theorem placed_amid (hhead : digits.head? ≠ some '0') (hlarge : ¬ (digits.length : ℤ) ≤ point)
    (hsmall : ¬ point ≤ 0) :
    Placed digits point (digits.take point.toNat) (digits.drop point.toNat) where
  text := by rw [place, if_neg hsmall, if_neg hlarge]
  pointed := by
    have hlength := List.length_pos_iff.2 hne
    refine ⟨?_, ?_, fun c hc => hdigits c (List.mem_of_mem_take hc),
      fun c hc => hdigits c (List.mem_of_mem_drop hc), .inr ?_⟩
    · rw [← List.length_pos_iff, List.length_take]
      omega
    · rw [← List.length_pos_iff, List.length_drop]
      omega
    · rwa [List.head?_take, if_neg (by omega)]
  value := by
    rw [List.take_append_drop, List.length_drop]
    congr 2
    omega

theorem exists_placed (hhead : digits.head? ≠ some '0') (point : ℤ) :
    ∃ whole fraction, Placed digits point whole fraction := by
  by_cases hsmall : point ≤ 0
  · exact ⟨_, _, placed_before hdigits hne hsmall⟩
  by_cases hlarge : (digits.length : ℤ) ≤ point
  · exact ⟨_, _, placed_behind hdigits hne hhead hlarge hsmall⟩
  · exact ⟨_, _, placed_amid hdigits hne hhead hlarge hsmall⟩

end

/-! ## Texts of magnitudes -/

/-- A magnitude is written as digits with a point, which are read as the magnitude. -/
theorem Format.exists_pointed (format : Format) (hpoint : format.wholePoint = true)
    (hpositional : format.positional = none) {v : Magnitude} (hv : v.IsDouble) :
    ∃ whole fraction, format.writeMagnitude v = whole ++ '.' :: fraction ∧
      Pointed whole fraction ∧
      (ofDigits (ofDigitChars (whole ++ fraction)) (-(fraction.length : ℤ))).toModel.unpack =
        v.unpacked .positive := by
  unfold writeMagnitude
  by_cases hm : v.mantissa = 0
  · refine ⟨['0'], ['0'], ?_, ⟨List.cons_ne_nil _ _, List.cons_ne_nil _ _,
      fun _ => isDigit_of_mem_replicate (n := 1), fun _ => isDigit_of_mem_replicate (n := 1),
      .inl rfl⟩, ?_⟩
    · rw [if_pos hm, if_pos hpoint, List.singleton_append]
    · rw [Magnitude.unpacked_of_zero .positive hm]
      rfl
  · have hpos := Nat.pos_of_ne_zero hm
    have hrounds := Magnitude.rounds_shortest hv hpos format.tie
    obtain ⟨short, hshort⟩ : ∃ short, v.shortest format.tie = short := ⟨_, rfl⟩
    rw [hshort] at hrounds
    have hdigits : 0 < short.digits := by
      rcases Nat.eq_zero_or_pos short.digits with hzero | hdigits
      · have := hrounds.pos hpos
        rw [hzero] at this
        simp at this
      · exact hdigits
    obtain ⟨whole, fraction, hplace, hpointed, hvalue⟩ := exists_placed
      (fun c => isDigit_of_mem_digitChars) (digitChars_ne_nil short.digits)
      (head?_digitChars hdigits) ((digitChars short.digits).length + short.exponent)
    rw [ofDigitChars_digitChars, add_sub_cancel_left] at hvalue
    refine ⟨whole, fraction, ?_, hpointed, ?_⟩
    · simp only [if_neg hm, hpositional, hshort, hpoint]
      exact hplace
    · exact Magnitude.Rounds.unpack_ofDigits (hvalue ▸ hrounds) hv hpos

end Lindenmayer.Decimal
