import SuiteTidy.Number.Basic
import SuiteTidy.Proofs.Decimal.Value

/-!
The order of numbers. Main statements: integers and floating-point numbers are compared by their
exact values, and a comparison with NaN fails.
-/

set_option autoImplicit false
set_option relaxedAutoImplicit false

namespace SuiteTidy.Number

open Decimal

def value? : Number → Option Extended
  | int n => some (.ofRat n)
  | real x => Decimal.value? x

private theorem compare_fraction (n num : Int) (den : Nat) (q : ℚ) (hden : 0 < den)
    (h : (num : ℚ) = q * den) : compare (n * den) num = compare (n : ℚ) q := by
  have hscale : StrictMono fun a : ℚ => a * den := fun a b hab =>
    mul_lt_mul_of_pos_right hab (by exact_mod_cast hden)
  have hcast : StrictMono fun a : ℤ => (a : ℚ) := Int.cast_strictMono
  rw [← compare_map hscale, ← compare_map hcast]
  simp [h]

private theorem compareIntReal_eq {n : Int} {x : Float} {v : Extended}
    (h : Decimal.value? x = some v) : compareIntReal n x = compare (.ofRat n) v := by
  unfold Decimal.value? at h
  cases hparts : parts x with
  | nan => simp [hparts, Parts.value?] at h
  | infinite negative =>
    have hsign : x < 0.0 ↔ negative = true := by
      rw [lt_iff_value?, Decimal.value?, Decimal.value?, hparts, parts_zero]
      cases negative <;> simp [order?, Parts.value?, compare_lt_iff_lt, not_lt_of_gt]
    have hfraction : (real x).fraction? = none := by simp only [fraction?, hparts]
    simp only [hparts, Parts.value?, Option.some.injEq] at h
    subst h
    cases negative with
    | false => simp [compareIntReal, hfraction, hsign, compare_lt_iff_lt.mpr]
    | true => simp [compareIntReal, hfraction, hsign, compare_gt_iff_gt.mpr]
  | finite negative m e =>
    obtain ⟨hden, hnum⟩ := fractionOf_eq m e
    simp only [hparts, Parts.value?, Option.some.injEq] at h
    subst h
    simp only [compareIntReal, fraction?, hparts, compare_map strictMono_ofRat]
    apply compare_fraction _ _ _ _ hden
    cases negative <;> simp [hnum]

private theorem order?_int_real (n : Int) (x : Float) (o : Ordering) :
    order? (int n).value? (real x).value? = some o ↔
      (!x.isNaN && compareIntReal n x == o) = true := by
  have hnan := isNaN_iff_value? x
  cases h : Decimal.value? x with
  | none => simp_all [value?, order?]
  | some v => simp_all [value?, order?, compareIntReal_eq h]

private theorem order?_swap (a b : Option Extended) (o : Ordering) :
    order? b a = some o.swap ↔ order? a b = some o := by
  cases a with
  | none => cases b <;> simp [order?]
  | some v =>
    cases b with
    | none => simp [order?]
    | some w => simp [order?, Std.OrientedOrd.eq_swap (a := w) (b := v)]

private theorem less_iff_order? (a b : Number) :
    a.less b ↔ order? a.value? b.value? = some .lt := by
  cases a with
  | int m =>
    cases b with
    | int n => simp [less, value?, order?, compare_map strictMono_ofRat, compare_lt_iff_lt]
    | real y => exact (order?_int_real m y .lt).symm
  | real x =>
    cases b with
    | int n => exact ((order?_swap _ _ .gt).trans (order?_int_real n x .gt)).symm
    | real y => simp [less, value?, lt_iff_value?]

private theorem same_iff_order? (a b : Number) :
    a.same b ↔ order? a.value? b.value? = some .eq := by
  cases a with
  | int m =>
    cases b with
    | int n => simp [same, value?, order?, compare_map strictMono_ofRat]
    | real y => exact (order?_int_real m y .eq).symm
  | real x =>
    cases b with
    | int n => exact ((order?_swap _ _ .eq).trans (order?_int_real n x .eq)).symm
    | real y => exact beq_iff_value? x y

private theorem order?_eq_some_iff (a b : Option Extended) (o : Ordering) :
    order? a b = some o ↔ ∃ v w, a = some v ∧ b = some w ∧ compare v w = o := by
  cases a <;> cases b <;> simp [order?]

private theorem less_iff (a b : Number) :
    a.less b ↔ ∃ v w, a.value? = some v ∧ b.value? = some w ∧ v < w := by
  simp only [less_iff_order?, order?_eq_some_iff, compare_lt_iff_lt]

theorem same_iff (a b : Number) : a.same b ↔ ∃ v, a.value? = some v ∧ b.value? = some v := by
  simp only [same_iff_order?, order?_eq_some_iff, compare_eq_iff_eq]
  constructor
  · rintro ⟨v, w, hv, hw, rfl⟩
    exact ⟨v, hv, hw⟩
  · rintro ⟨v, hv, hw⟩
    exact ⟨v, v, hv, hw, rfl⟩

theorem atMost_iff (a b : Number) :
    a.atMost b ↔ ∃ v w, a.value? = some v ∧ b.value? = some w ∧ v ≤ w := by
  rw [atMost, Bool.or_eq_true, less_iff, same_iff]
  constructor
  · rintro (⟨v, w, hv, hw, h⟩ | ⟨v, hv, hw⟩)
    · exact ⟨v, w, hv, hw, h.le⟩
    · exact ⟨v, v, hv, hw, le_rfl⟩
  · rintro ⟨v, w, hv, hw, h⟩
    rcases h.lt_or_eq with h | rfl
    · exact .inl ⟨v, w, hv, hw, h⟩
    · exact .inr ⟨v, hv, hw⟩

theorem atMost_trans {a b c : Number} (hab : a.atMost b) (hbc : b.atMost c) : a.atMost c := by
  obtain ⟨u, v, hu, hv, h⟩ := (atMost_iff a b).mp hab
  obtain ⟨v', w, hv', hw, h'⟩ := (atMost_iff b c).mp hbc
  obtain rfl : v = v' := by simpa [hv] using hv'
  exact (atMost_iff a c).mpr ⟨u, w, hu, hw, h.trans h'⟩

theorem atMost_self_of_atMost {a b : Number} (h : a.atMost b) : a.atMost a := by
  obtain ⟨v, -, hv, -, -⟩ := (atMost_iff a b).mp h
  exact (atMost_iff a a).mpr ⟨v, v, hv, hv, le_rfl⟩

theorem not_less_iff {a b : Number} (ha : a.atMost a) (hb : b.atMost b) :
    ¬ b.less a ↔ a.atMost b := by
  obtain ⟨v, -, hv, -, -⟩ := (atMost_iff a a).mp ha
  obtain ⟨w, -, hw, -, -⟩ := (atMost_iff b b).mp hb
  simp [less_iff, atMost_iff, hv, hw]

end SuiteTidy.Number
