import Lindenmayer.Proofs.Decimal.Text
import Lindenmayer.Toml.Number

/-!
# Numbers read back

Integers of sixty-four bits and doubles other than NaN are read as they were written, at the end of
a line (`readNumeric?_integer`, `readNumeric?_double`). Neither is taken for a date or a time.
-/

namespace Lindenmayer.Toml

open Decimal (Pointed digitChars)

/-! ## Digits -/

theorem readDigits_append {isDigit : Char → Bool} {digits rest : List Char}
    (hdigits : ∀ c ∈ digits, isDigit c = true)
    (hrest : ∀ c ∈ rest.head?, isDigit c = false ∧ c ≠ '_') (behind : Bool) :
    readDigits isDigit behind (digits ++ rest) = (digits, rest) := by
  induction digits generalizing behind with
  | nil =>
      cases rest with
      | nil => rfl
      | cons c rest =>
          obtain ⟨hdigit, hunderscore⟩ := hrest c rfl
          simp [readDigits, hdigit, hunderscore]
  | cons d digits ih =>
      have hd := hdigits d List.mem_cons_self
      have htail : ∀ c ∈ digits, isDigit c = true :=
        fun c hc => hdigits c (List.mem_cons_of_mem _ hc)
      simp [readDigits, hd, ih htail]

theorem readWhole_append {whole rest : List Char} (hdigits : ∀ c ∈ whole, c.isDigit = true)
    (hleading : whole = ['0'] ∨ whole.head? ≠ some '0') (hne : whole ≠ [])
    (hrest : ∀ c ∈ rest.head?, c.isDigit = false ∧ c ≠ '_') :
    readWhole (whole ++ rest) = (whole, rest) := by
  rcases hleading with rfl | hhead
  · rfl
  · unfold readWhole
    split
    · next heq =>
      cases whole with
      | nil => exact absurd rfl hne
      | cons d whole =>
          cases heq
          exact absurd rfl hhead
    · exact readDigits_append hdigits hrest false

/-! ## What is no date and no time -/

theorem readField?_eq_some {count low high n : ℕ} {cs rest : List Char}
    (h : readField? count low high cs = some (n, rest)) :
    rest = cs.drop count ∧ (cs.take count).length = count ∧
      ∀ c ∈ cs.take count, c.isDigit = true := by
  unfold readField? at h
  simp only at h
  split at h
  · next hfield =>
    obtain ⟨hlength, hall, -, -⟩ := hfield
    cases h
    exact ⟨rfl, hlength, List.all_eq_true.1 hall⟩
  · cases h

/-- Behind a field of digits there stands a digit or what the digits end with. -/
theorem head?_of_readField? {count low high n : ℕ} {digits rest tail : List Char} {c : Char}
    (hdigits : ∀ d ∈ digits, d.isDigit = true) (hc : c.isDigit = false)
    (h : readField? count low high (digits ++ c :: rest) = some (n, tail)) :
    count ≤ digits.length ∧ ∃ d ∈ tail.head?, d.isDigit = true ∨ d = c := by
  obtain ⟨rfl, hlength, hall⟩ := readField?_eq_some h
  have hle : count ≤ digits.length := by
    by_contra hlt
    have hmem : c ∈ (digits ++ c :: rest).take count := by
      rw [List.take_append, List.mem_append]
      right
      obtain ⟨k, hk⟩ : ∃ k, count - digits.length = k + 1 :=
        ⟨count - digits.length - 1, by omega⟩
      rw [hk, List.take_succ_cons]
      exact List.mem_cons_self
    rw [hall c hmem] at hc
    cases hc
  refine ⟨hle, ?_⟩
  rw [List.drop_append_of_le_length hle]
  cases hdrop : digits.drop count with
  | nil => exact ⟨c, rfl, .inr rfl⟩
  | cons d back =>
      have hmem : d ∈ digits.drop count := by rw [hdrop]; exact List.mem_cons_self
      exact ⟨d, rfl, .inl (hdigits d (List.mem_of_mem_drop hmem))⟩

/-- Digits that neither a hyphen nor a colon follows start no date and no time. -/
theorem readMoment?_eq_none {digits rest : List Char} {c : Char}
    (hdigits : ∀ d ∈ digits, d.isDigit = true) (hc : c.isDigit = false) (hcolon : c ≠ ':')
    (hhyphen : c = '-' → digits = []) : readMoment? (digits ++ c :: rest) = some none := by
  have hhour : readHour? (digits ++ c :: rest) = none := by
    unfold readHour?
    cases hfield : readField? 2 0 23 (digits ++ c :: rest) with
    | none => rfl
    | some field =>
        obtain ⟨hour, tail⟩ := field
        obtain ⟨-, d, hd, hcases⟩ := head?_of_readField? hdigits hc hfield
        cases tail with
        | nil => cases hd
        | cons e tail =>
            cases hd
            have hne : d ≠ ':' := by
              rintro rfl
              rcases hcases with hdigit | rfl
              · exact absurd hdigit (by decide)
              · exact hcolon rfl
            show readMark? ':' (d :: tail) = none
            rw [readMark?, if_neg hne]
  unfold readMoment?
  split
  · next year tail hfield =>
    obtain ⟨hle, d, hd, hcases⟩ := head?_of_readField? hdigits hc hfield
    cases hd
    rcases hcases with hdigit | rfl
    · exact absurd hdigit (by decide)
    · rw [hhyphen rfl] at hle
      exact absurd hle (by decide)
  · rw [hhour]

/-! ## Numbers without sign -/

theorem readUnsigned?_pointed {whole fraction : List Char} (h : Pointed whole fraction)
    (negative : Bool) (rest : List Char) :
    readUnsigned? negative (whole ++ '.' :: (fraction ++ '\n' :: rest)) =
      (double? negative (whole ++ fraction) (-(fraction.length : ℤ))).map
        fun value => (value, '\n' :: rest) := by
  have hwhole : readWhole (whole ++ '.' :: (fraction ++ '\n' :: rest)) =
      (whole, '.' :: (fraction ++ '\n' :: rest)) :=
    readWhole_append h.whole_digits h.leading h.whole_ne (by simp)
  have hfraction : readDigits Char.isDigit false (fraction ++ '\n' :: rest) =
      (fraction, '\n' :: rest) :=
    readDigits_append h.fraction_digits (by simp) false
  simp [readUnsigned?, hwhole, h.whole_ne, readFraction?, hfraction, h.fraction_ne, readPower?,
    Option.map_eq_bind]

theorem readUnsigned?_digitChars (negative : Bool) (n : ℕ) (rest : List Char) :
    readUnsigned? negative (digitChars n ++ '\n' :: rest) =
      (inRange? (if negative then -n else n)).map fun value => (value, '\n' :: rest) := by
  have hleading : digitChars n = ['0'] ∨ (digitChars n).head? ≠ some '0' := by
    rcases Nat.eq_zero_or_pos n with rfl | hpos
    · exact .inl rfl
    · exact .inr (Decimal.head?_digitChars hpos)
  have hwhole : readWhole (digitChars n ++ '\n' :: rest) = (digitChars n, '\n' :: rest) :=
    readWhole_append (fun _ => Decimal.isDigit_of_mem_digitChars) hleading
      (Decimal.digitChars_ne_nil n) (by simp)
  simp [readUnsigned?, hwhole, Decimal.digitChars_ne_nil, readFraction?, readPower?,
    Decimal.ofDigitChars_digitChars, Option.map_eq_bind]

/-! ## Numbers with a sign -/

/-- The sign that is written. -/
def signText (negative : Bool) : List Char := if negative then ['-'] else []

/-- A number that is not in another base, with a minus sign or without. -/
theorem readNumber?_signed (negative : Bool) {d : Char} {tail : List Char}
    (hd : d.isDigit = true) (htail : ∀ c ∈ tail.head?, c ≠ 'x' ∧ c ≠ 'o' ∧ c ≠ 'b') :
    readNumber? (signText negative ++ d :: tail) =
      readUnsigned? negative (d :: tail) := by
  have hi : d ≠ 'i' := by rintro rfl; simp at hd
  have hn : d ≠ 'n' := by rintro rfl; simp at hd
  have hminus : d ≠ '-' := by rintro rfl; simp at hd
  have hplus : d ≠ '+' := by rintro rfl; simp at hd
  cases negative with
  | true => simp [signText, readNumber?, readSign, hi, hn]
  | false =>
      have hsign : readSign (d :: tail) = (false, d :: tail) := by
        simp [readSign, hminus, hplus]
      show readNumber? (d :: tail) = _
      unfold readNumber?
      split
      · next heq =>
        cases heq
        exact absurd rfl (htail 'x' rfl).1
      · next heq =>
        cases heq
        exact absurd rfl (htail 'o' rfl).2.1
      · next heq =>
        cases heq
        exact absurd rfl (htail 'b' rfl).2.2
      · simp [hsign, hi, hn]

theorem readNumeric?_of_moment {cs : List Char} (h : readMoment? cs = some none) :
    readNumeric? cs = readNumber? cs := by
  rw [readNumeric?, h]

/-- Digits with a point or a line break behind them are read as a number. -/
theorem readNumeric?_signed (negative : Bool) {digits rest : List Char} {c : Char}
    (hdigits : ∀ d ∈ digits, d.isDigit = true) (hne : digits ≠ []) (hc : c = '.' ∨ c = '\n') :
    readNumeric? (signText negative ++ (digits ++ c :: rest)) =
      readUnsigned? negative (digits ++ c :: rest) := by
  have hdigit : c.isDigit = false := by rcases hc with rfl | rfl <;> simp
  have hmoment : readMoment? (signText negative ++ (digits ++ c :: rest)) = some none := by
    cases negative with
    | true =>
        show readMoment? ([] ++ '-' :: _) = _
        exact readMoment?_eq_none (by simp) (by simp) (by simp) fun _ => rfl
    | false =>
        refine readMoment?_eq_none hdigits hdigit ?_ ?_ <;> rcases hc with rfl | rfl <;> simp
  rw [readNumeric?_of_moment hmoment]
  obtain ⟨d, tail, rfl⟩ := List.exists_cons_of_ne_nil hne
  refine readNumber?_signed negative (hdigits d List.mem_cons_self) fun e he => ?_
  have hcases : e.isDigit = true ∨ e = '.' ∨ e = '\n' := by
    cases tail with
    | nil =>
        cases he
        exact .inr hc
    | cons b tail =>
        cases he
        exact .inl (hdigits _ (List.mem_cons_of_mem _ List.mem_cons_self))
  refine ⟨?_, ?_, ?_⟩ <;> rintro rfl <;> simp at hcases

/-! ## Integers -/

/-- The text of an integer is its digits, behind a minus sign if it is negative. -/
theorem toList_toString (n : ℤ) :
    (toString n).toList = signText (n < 0) ++ digitChars n.natAbs := by
  rw [Int.toString_eq_repr, Int.repr_eq_if]
  by_cases hneg : n < 0
  · have habs : (-n).toNat = n.natAbs := by omega
    rw [if_neg (by omega), String.toList_append, Nat.toList_repr, habs]
    simp [signText, hneg, digitChars]
  · have habs : n.toNat = n.natAbs := by omega
    rw [if_pos (by omega), Nat.toList_repr, habs]
    simp [signText, hneg, digitChars]

/-- An integer of sixty-four bits is read as it was written. -/
theorem readNumeric?_integer {n : ℤ} (hlow : -2 ^ 63 ≤ n) (hhigh : n < 2 ^ 63)
    (rest : List Char) :
    readNumeric? ((toString n).toList ++ '\n' :: rest) = some (.integer n, '\n' :: rest) := by
  have hsigned : (if decide (n < 0) = true then -(n.natAbs : ℤ) else n.natAbs) = n := by
    split
    · next h =>
      have := of_decide_eq_true h
      omega
    · next h =>
      have : ¬ n < 0 := fun hneg => h (decide_eq_true hneg)
      omega
  have hrange : inRange? n = some (.integer n) := by
    unfold inRange?
    simp only [Nat.pow_eq, Nat.cast_pow, Nat.cast_ofNat]
    rw [if_pos ⟨hlow, hhigh⟩]
  rw [toList_toString, List.append_assoc,
    readNumeric?_signed _ (fun _ => Decimal.isDigit_of_mem_digitChars)
      (Decimal.digitChars_ne_nil _) (.inr rfl),
    readUnsigned?_digitChars, hsigned, hrange]
  rfl

theorem readNumeric?_infinite (negative : Bool) (rest : List Char) :
    readNumeric? (signText negative ++ 'i' :: 'n' :: 'f' :: '\n' :: rest) =
      some (.double (if negative then -(1.0 / 0.0) else 1.0 / 0.0), '\n' :: rest) := by
  cases negative with
  | true =>
      show readNumeric? ([] ++ '-' :: _) = _
      rw [readNumeric?_of_moment (readMoment?_eq_none (by simp) (by simp) (by simp) fun _ => rfl)]
      rfl
  | false =>
      show readNumeric? ([] ++ 'i' :: _) = _
      rw [readNumeric?_of_moment (readMoment?_eq_none (by simp) (by simp) (by simp) fun _ => rfl)]
      rfl

/-! ## Doubles -/

/-- Digits that are read as a magnitude are read as the double of either sign. -/
theorem double?_eq {x : Float} (h : x.isNaN = false) {negative : Bool} {v : Decimal.Magnitude}
    (hunpack : x.toModel.unpack = v.unpacked (Decimal.signOf negative)) {digits : List Char}
    {power : ℤ}
    (hread : (Decimal.ofDigits (Decimal.ofDigitChars digits) power).toModel.unpack =
      v.unpacked .positive) :
    double? negative digits power = some (.double x) := by
  unfold double?
  obtain ⟨y, hy⟩ : ∃ y, Decimal.ofDigits (Decimal.ofDigitChars digits) power = y := ⟨_, rfl⟩
  rw [hy] at hread ⊢
  cases negative with
  | true =>
      have hx : x = -y := by
        apply Double.eq_of_unpack h
        rw [hunpack, Double.unpack_neg, hread, Decimal.Magnitude.neg_unpacked]
        rfl
      rw [hx]
      rfl
  | false =>
      have hx : x = y := Double.eq_of_unpack h (hunpack.trans hread.symm)
      have hfinite : y.isInf = false := by
        show y.toModel.unpack.isInf = false
        rw [hread]
        rcases Nat.eq_zero_or_pos v.mantissa with hnone | hpos
        · rw [Decimal.Magnitude.unpacked_of_zero .positive hnone]
          rfl
        · rw [Decimal.Magnitude.unpacked_of_pos .positive hpos]
          rfl
      rw [if_neg (by decide), hfinite, if_neg (by decide), hx]

/-- The text of a double is a word or digits with a point, behind a minus sign if it is negative. -/
theorem toList_write {x : Float} (h : x.isNaN = false) :
    (∃ negative, (doubleFormat.write x).toList = signText negative ++ ['i', 'n', 'f'] ∧
      x = if negative then -(1.0 / 0.0) else 1.0 / 0.0) ∨
    ∃ negative whole fraction,
      (doubleFormat.write x).toList = signText negative ++ (whole ++ '.' :: fraction) ∧
      Pointed whole fraction ∧
      double? negative (whole ++ fraction) (-(fraction.length : ℤ)) = some (.double x) := by
  rcases Decimal.Content.ofFloat_cases h with ⟨negative, hcontent, hunpack⟩ |
    ⟨negative, v, hcontent, hv, hunpack⟩
  · refine .inl ⟨negative, ?_, Double.eq_of_unpack h ?_⟩
    · rw [Decimal.Format.write, hcontent]
      cases negative <;> rfl
    · rw [hunpack]
      cases negative <;> rfl
  · obtain ⟨whole, fraction, hmagnitude, hpointed, hread⟩ :=
      Decimal.Format.exists_pointed doubleFormat rfl rfl hv
    refine .inr ⟨negative, whole, fraction, ?_, hpointed, double?_eq h hunpack hread⟩
    rw [Decimal.Format.write, hcontent]
    simp only [hmagnitude, String.toList_ofList]
    cases negative <;> rfl

/-- A double other than NaN is read as it was written. -/
theorem readNumeric?_double {x : Float} (h : x.isNaN = false) (rest : List Char) :
    readNumeric? ((doubleFormat.write x).toList ++ '\n' :: rest) =
      some (.double x, '\n' :: rest) := by
  rcases toList_write h with ⟨negative, htext, hx⟩ |
    ⟨negative, whole, fraction, htext, hpointed, hdouble⟩
  · rw [htext, List.append_assoc]
    show readNumeric? (signText negative ++ 'i' :: 'n' :: 'f' :: '\n' :: rest) = _
    rw [readNumeric?_infinite, ← hx]
  · rw [htext, List.append_assoc, List.append_assoc, List.cons_append,
      readNumeric?_signed _ hpointed.whole_digits hpointed.whole_ne (.inl rfl),
      readUnsigned?_pointed hpointed, hdouble]
    rfl

/-! ## How numbers begin -/

/-- The text starts with a digit, a minus sign or the word for infinity. -/
def StartsNumber (cs : List Char) : Prop :=
  ∃ d ∈ cs.head?, d.isDigit = true ∨ d = '-' ∨ d = 'i'

theorem startsNumber_signed (negative : Bool) {digits : List Char}
    (hdigits : ∀ d ∈ digits, d.isDigit = true) (hne : digits ≠ []) (rest : List Char) :
    StartsNumber (signText negative ++ (digits ++ rest)) := by
  cases negative with
  | true => exact ⟨'-', rfl, .inr (.inl rfl)⟩
  | false =>
      obtain ⟨d, digits, rfl⟩ := List.exists_cons_of_ne_nil hne
      exact ⟨d, rfl, .inl (hdigits d List.mem_cons_self)⟩

theorem startsNumber_integer (n : ℤ) (rest : List Char) :
    StartsNumber ((toString n).toList ++ rest) := by
  rw [toList_toString, List.append_assoc]
  exact startsNumber_signed _ (fun _ => Decimal.isDigit_of_mem_digitChars)
    (Decimal.digitChars_ne_nil _) rest

theorem startsNumber_double {x : Float} (h : x.isNaN = false) (rest : List Char) :
    StartsNumber ((doubleFormat.write x).toList ++ rest) := by
  rcases toList_write h with ⟨negative, htext, -⟩ | ⟨negative, whole, fraction, htext, hpointed, -⟩
  · rw [htext]
    cases negative with
    | true => exact ⟨'-', rfl, .inr (.inl rfl)⟩
    | false => exact ⟨'i', rfl, .inr (.inr rfl)⟩
  · rw [htext, List.append_assoc, List.append_assoc]
    exact startsNumber_signed _ hpointed.whole_digits hpointed.whole_ne _

end Lindenmayer.Toml
