import Lindenmayer.Proofs.Double.Order

/-!
# Sums of doubles that are not negative

* The sums on the way do not decrease (`pairwise_scanl`).
* There are two zeros, which compare alike, and so they do as terms of a sum: adding a zero makes
  nothing larger (`add_le_of_zero`), and sums that begin with different zeros are the same or both
  zero (`alike_foldl`).
-/

namespace Lindenmayer.Double

open Float.Model Float.Model.UnpackedFloat

/-! ## Comparing -/

theorem lt_iff {x y : Float} : x < y ↔ x.toModel.unpack.lt y.toModel.unpack = true := by
  show decide (x.toModel < y.toModel) = true ↔ _
  rw [decide_eq_true_iff]
  rfl

theorem Nonneg.exists_place {u : UnpackedFloat} (h : Nonneg u) : ∃ a, place u = some a := by
  cases h with
  | zero | finite | infinity => exact ⟨_, rfl⟩

theorem not_le_iff {x y : Float} (hx : 0.0 ≤ x) (hy : 0.0 ≤ y) : ¬ x ≤ y ↔ y < x := by
  obtain ⟨a, ha⟩ := (nonneg_iff.1 hx).exists_place
  obtain ⟨b, hb⟩ := (nonneg_iff.1 hy).exists_place
  rw [le_iff, lt_iff, le_iff_place, lt_iff_place]
  simp [ha, hb]

theorem eq_notANumber_of_place {u : UnpackedFloat} (h : place u = none) : u = .notANumber := by
  rcases u with ⟨⟨⟩⟩ | - | s | ⟨⟨⟩, m, e, hm⟩ <;> first | rfl | cases h

/-- What is on neither side of zero is no number. -/
theorem unpack_of_not_le {x : Float} (hle : ¬ 0.0 ≤ x) (hlt : ¬ x < 0.0) :
    x.toModel.unpack = .notANumber := by
  obtain ⟨z, hz⟩ : ∃ z, place (0.0 : Float).toModel.unpack = some z := ⟨_, rfl⟩
  apply eq_notANumber_of_place
  cases hx : place x.toModel.unpack with
  | none => rfl
  | some a =>
      rcases le_or_gt z a with hza | haz
      · exact absurd (le_iff.2 (le_iff_place.2 ⟨z, hz, a, hx, hza⟩)) hle
      · exact absurd (lt_iff.2 (lt_iff_place.2 ⟨a, hx, z, hz, haz⟩)) hlt

/-! ## Zeros -/

theorem beq_zero_iff {x : Float} : (x == 0.0) = true ↔ ∃ s, x.toModel.unpack = .zero s := by
  have hzero : (0.0 : Float).toModel.unpack = .zero .positive := rfl
  show x.toModel.unpack.beq (0.0 : Float).toModel.unpack = true ↔ _
  rw [hzero]
  generalize x.toModel.unpack = u
  constructor
  · intro h
    rcases u with ⟨⟨⟩⟩ | - | s | ⟨⟨⟩, m, e, hm⟩
    case zero => exact ⟨s, rfl⟩
    all_goals cases h
  · rintro ⟨s, rfl⟩
    rfl

/-- What is not negative and not above zero is zero. -/
theorem beq_zero_of_le {x : Float} (hx : 0.0 ≤ x) (hle : x ≤ 0.0) : (x == 0.0) = true := by
  have hzero : (0.0 : Float).toModel.unpack = .zero .positive := rfl
  rw [beq_zero_iff]
  rw [le_iff, hzero] at hle
  rw [nonneg_iff] at hx
  generalize x.toModel.unpack = u at hx hle
  cases hx with
  | zero s => exact ⟨s, rfl⟩
  | finite | infinity => cases hle

theorem Nonneg.sum_zero_le {u : UnpackedFloat} (h : Nonneg u) (s : Sign) :
    (sum u (.zero s)).le u = true := by
  cases h with
  | zero s' => cases s <;> cases s' <;> rfl
  | finite hm hcanonical hmax =>
      have hsum := unpack_pack_of_le hm hcanonical hmax
      unfold sum
      rw [show UnpackedFloat.add .binary64 (.finite .positive _ _ hm) (.zero s) =
        .finite .positive _ _ hm from rfl, hsum]
      exact le_finite hm hm (.inr ⟨rfl, Nat.le_refl _⟩)
  | infinity =>
      rw [Nonneg.infinity_sum (.zero s)]
      rfl

theorem add_le_of_zero {x y : Float} (hx : 0.0 ≤ x) (hy : (y == 0.0) = true) : x + y ≤ x := by
  obtain ⟨s, hs⟩ := beq_zero_iff.1 hy
  rw [le_iff, unpack_add, hs]
  exact (nonneg_iff.1 hx).sum_zero_le s

/-! ## Sums of many terms -/

theorem le_refl_of_nonneg {x : Float} (hx : 0.0 ≤ x) : x ≤ x := by
  obtain ⟨a, ha⟩ := (nonneg_iff.1 hx).exists_place
  exact le_iff.2 (le_iff_place.2 ⟨a, ha, a, ha, le_refl a⟩)

/-- No sum on the way is less than what it begins with. -/
theorem le_of_mem_scanl {terms : List Float} (h : ∀ term ∈ terms, 0.0 ≤ term) {x total : Float}
    (hx : 0.0 ≤ x) (htotal : total ∈ terms.scanl (· + ·) x) : x ≤ total := by
  induction terms generalizing x with
  | nil =>
      obtain rfl : total = x := by simpa using htotal
      exact le_refl_of_nonneg hx
  | cons term rest ih =>
      obtain ⟨hterm, hrest⟩ := List.forall_mem_cons.1 h
      have hnext : x ≤ x + term := (le_add hx hterm).1
      rw [List.scanl_cons, List.mem_cons] at htotal
      rcases htotal with rfl | htotal
      · exact le_refl_of_nonneg hx
      · exact le_trans hnext (ih hrest (le_trans hx hnext) htotal)

theorem pairwise_scanl {terms : List Float} (h : ∀ term ∈ terms, 0.0 ≤ term) {x : Float}
    (hx : 0.0 ≤ x) : (terms.scanl (· + ·) x).Pairwise (· ≤ ·) := by
  induction terms generalizing x with
  | nil => simp
  | cons term rest ih =>
      obtain ⟨hterm, hrest⟩ := List.forall_mem_cons.1 h
      have hnext : 0.0 ≤ x + term := le_trans hx (le_add hx hterm).1
      rw [List.scanl_cons, List.pairwise_cons]
      refine ⟨fun total htotal => ?_, ih hrest hnext⟩
      exact le_trans (le_add hx hterm).1 (le_of_mem_scanl hrest hnext htotal)

theorem nonneg_foldl {terms : List Float} (h : ∀ term ∈ terms, 0.0 ≤ term) {x : Float}
    (hx : 0.0 ≤ x) : 0.0 ≤ terms.foldl (· + ·) x :=
  le_trans hx (le_of_mem_scanl h hx (List.mem_of_getLast? List.getLast?_scanl))

/-! ## Sums that begin with a zero -/

/-- The two are the same, or both are zero. -/
def Alike (u v : UnpackedFloat) : Prop := u = v ∨ ∃ s s', u = .zero s ∧ v = .zero s'

theorem Alike.place_eq {u v : UnpackedFloat} (h : Alike u v) : place u = place v := by
  rcases h with rfl | ⟨s, s', rfl, rfl⟩
  · rfl
  · rfl

theorem Alike.sum {u u' v : UnpackedFloat} (h : Alike u u') (hv : Nonneg v) :
    Alike (sum u v) (sum u' v) := by
  rcases h with rfl | ⟨s, s', rfl, rfl⟩
  · exact .inl rfl
  · cases hv with
    | zero t =>
        -- which zero comes out depends on the signs of both
        have hzero : ∀ s, ∃ t', Double.sum (.zero s) (.zero t) = .zero t' := by
          intro s
          cases s <;> cases t <;> exact ⟨_, rfl⟩
        obtain ⟨t₁, h₁⟩ := hzero s
        obtain ⟨t₂, h₂⟩ := hzero s'
        exact .inr ⟨t₁, t₂, h₁, h₂⟩
    | finite | infinity => exact .inl rfl

/-- The zero that a sum begins with makes no difference to how it compares. -/
theorem alike_foldl {terms : List Float} (h : ∀ term ∈ terms, 0.0 ≤ term) {x y : Float}
    (hxy : Alike x.toModel.unpack y.toModel.unpack) :
    Alike (terms.foldl (· + ·) x).toModel.unpack (terms.foldl (· + ·) y).toModel.unpack := by
  induction terms generalizing x y with
  | nil => exact hxy
  | cons term rest ih =>
      obtain ⟨hterm, hrest⟩ := List.forall_mem_cons.1 h
      exact ih hrest (hxy.sum (nonneg_iff.1 hterm))

end Lindenmayer.Double
