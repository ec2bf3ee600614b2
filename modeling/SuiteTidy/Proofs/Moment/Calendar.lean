import SuiteTidy.Moment.Basic
import Mathlib.Algebra.Order.Ring.Int
import Mathlib.Tactic.SplitIfs

/-!
Dates and day numbers. Main statement: the date of a day in one of the years from 1 to 9999 exists
in the calendar and has the number of the day.
-/

set_option autoImplicit false
set_option relaxedAutoImplicit false

namespace SuiteTidy.Moment

/-! Years. -/

def daysOfYear (y : Int) : Int := if isLeap y then 366 else 365

private theorem daysBeforeYear_succ (y : Int) :
    daysBeforeYear (y + 1) = daysBeforeYear y + daysOfYear y := by
  unfold daysBeforeYear daysOfYear isLeap
  simp only [Bool.and_eq_true, Bool.or_eq_true, beq_iff_eq, bne_iff_ne, ne_eq]
  split_ifs <;> omega

private theorem daysBeforeYear_mono {a b : Int} (h : a ≤ b) :
    daysBeforeYear a ≤ daysBeforeYear b := by
  simp only [daysBeforeYear]
  omega

/-- The guess for the year of a day is not late, and less than forty years early. -/
private theorem guess_mem {n : Int} (hlow : 0 ≤ n) (hhigh : n < 3652059) :
    daysBeforeYear (n / 366 + 1) ≤ n ∧ n < daysBeforeYear (n / 366 + 1 + 40) := by
  simp only [daysBeforeYear]
  omega

private theorem exists_last {P : Nat → Prop} (hfirst : P 0) {k : Nat} (hlast : ¬ P k) :
    ∃ j < k, P j ∧ ¬ P (j + 1) := by
  induction k with
  | zero => exact absurd hfirst hlast
  | succ k ih =>
    by_cases hk : P k
    · exact ⟨k, by omega, hk, hlast⟩
    · obtain ⟨j, hj, hstep⟩ := ih hk
      exact ⟨j, by omega, hstep⟩

private theorem filter_range_le {j k : Nat} (hj : j < k) {p : Nat → Bool}
    (hp : ∀ i, p i = true ↔ i ≤ j) : (List.range k).filter p = List.range (j + 1) := by
  obtain ⟨more, rfl⟩ : ∃ more, k = (j + 1) + more := ⟨k - (j + 1), by omega⟩
  rw [List.range_add, List.filter_append, List.filter_eq_self.mpr, List.filter_eq_nil_iff.mpr,
    List.append_nil]
  · intro i hi
    obtain ⟨l, -, rfl⟩ := List.mem_map.mp hi
    rw [hp]
    omega
  · intro i hi
    have hlt := List.mem_range.mp hi
    rw [hp]
    omega

private theorem year_dateOf {n : Int} (hlow : 0 ≤ n) (hhigh : n < 3652059) :
    daysBeforeYear (dateOf n).year ≤ n ∧ n < daysBeforeYear ((dateOf n).year + 1) := by
  obtain ⟨hearly, hlate⟩ := guess_mem hlow hhigh
  obtain ⟨j, hj, hle, hgt⟩ := exists_last
    (P := fun k : Nat => daysBeforeYear (n / 366 + 1 + (k : Int)) ≤ n) (k := 40)
    (by simpa using hearly) (by simpa using hlate)
  have hfilter : (List.range 40).filter
      (fun k : Nat => daysBeforeYear (n / 366 + 1 + (k : Int)) ≤ n) = List.range (j + 1) := by
    refine filter_range_le hj fun i => ?_
    rw [decide_eq_true_eq]
    constructor
    · intro hi
      by_contra hlt
      exact hgt ((daysBeforeYear_mono (by push_cast; omega)).trans hi)
    · intro hi
      exact (daysBeforeYear_mono (by omega)).trans hle
  have hyear : (dateOf n).year = n / 366 + 1 + (j : Int) := by
    simp only [dateOf, hfilter, List.getLast?_range]
    simp
  rw [hyear]
  refine ⟨hle, ?_⟩
  rw [add_assoc]
  push_cast at hgt
  exact not_le.mp hgt

/-! Months. -/

private theorem daysBeforeMonth_succ (y : Int) {m : Int} (hm : 1 ≤ m) :
    daysBeforeMonth y (m + 1) = daysBeforeMonth y m + daysIn y m := by
  obtain ⟨k, rfl⟩ : ∃ k : Nat, m = (k : Int) + 1 := ⟨(m - 1).toNat, by omega⟩
  have hlater : ((k : Int) + 1 + 1).toNat - 1 = k + 1 := by omega
  have hearlier : ((k : Int) + 1).toNat - 1 = k := by omega
  have hsum : ∀ days : List Int, days.foldr (· + ·) 0 = days.sum := fun _ => rfl
  simp only [daysBeforeMonth, hlater, hearlier, hsum, List.range_succ, List.map_append,
    List.sum_append, List.map_cons, List.map_nil, List.sum_singleton]

private theorem daysBeforeMonth_thirteen (y : Int) : daysBeforeMonth y 13 = daysOfYear y := by
  cases hleap : isLeap y <;> simp [daysBeforeMonth, daysOfYear, daysIn, hleap, List.range_succ]

private theorem monthOf_mem (y : Int) (fuel : Nat) {m d : Int} (hfuel : m + fuel = 12) (hm : 1 ≤ m)
    (hd : 0 ≤ d) (hyear : daysBeforeMonth y m + d < daysOfYear y) :
    (1 ≤ (monthOf y fuel m d).1 ∧ (monthOf y fuel m d).1 ≤ 12) ∧
      (0 ≤ (monthOf y fuel m d).2 ∧ (monthOf y fuel m d).2 < daysIn y (monthOf y fuel m d).1) ∧
      daysBeforeMonth y (monthOf y fuel m d).1 + (monthOf y fuel m d).2 =
        daysBeforeMonth y m + d := by
  induction fuel generalizing m d with
  | zero =>
    have hlast := daysBeforeMonth_succ y hm
    rw [show m + 1 = 13 by omega, daysBeforeMonth_thirteen] at hlast
    exact ⟨⟨hm, by simp only [monthOf]; omega⟩, ⟨hd, by simp only [monthOf]; omega⟩, rfl⟩
  | succ fuel ih =>
    rw [monthOf]
    split_ifs with hin
    · exact ⟨⟨hm, by omega⟩, ⟨hd, hin⟩, rfl⟩
    · have hnext := daysBeforeMonth_succ y hm
      have hrest := ih (m := m + 1) (d := d - daysIn y m) (by push_cast at hfuel; omega) (by omega)
        (by omega) (by omega)
      exact ⟨⟨hrest.1.1, hrest.1.2⟩, hrest.2.1, by rw [hrest.2.2]; omega⟩

/-! Dates. -/

/-- A date of the calendar in one of the years that are written with four digits. -/
structure Date.Exists (d : Date) : Prop where
  year : 1 ≤ d.year ∧ d.year ≤ 9999
  month : 1 ≤ d.month ∧ d.month ≤ 12
  day : 1 ≤ d.day ∧ d.day ≤ daysIn d.year d.month

theorem dateOf_mem {n : Int} (hlow : 0 ≤ n) (hhigh : n < 3652059) :
    (dateOf n).Exists ∧ dayNumber (dateOf n).year (dateOf n).month (dateOf n).day = n := by
  obtain ⟨hearly, hlate⟩ := year_dateOf hlow hhigh
  have hyear : 1 ≤ (dateOf n).year ∧ (dateOf n).year ≤ 9999 := by
    simp only [daysBeforeYear] at hearly hlate
    omega
  rw [daysBeforeYear_succ] at hlate
  have hfirst : daysBeforeMonth (dateOf n).year 1 = 0 := rfl
  obtain ⟨hmonth, hday, hnumber⟩ := monthOf_mem (dateOf n).year 11 (m := 1)
    (d := n - daysBeforeYear (dateOf n).year) rfl le_rfl (by omega) (by omega)
  have hfields : (dateOf n).month =
        (monthOf (dateOf n).year 11 1 (n - daysBeforeYear (dateOf n).year)).1 ∧
      (dateOf n).day =
        (monthOf (dateOf n).year 11 1 (n - daysBeforeYear (dateOf n).year)).2 + 1 := ⟨rfl, rfl⟩
  refine ⟨⟨hyear, ?_, ?_⟩, ?_⟩
  · rw [hfields.1]
    exact hmonth
  · rw [hfields.1, hfields.2]
    omega
  · rw [dayNumber, hfields.1, hfields.2]
    omega

end SuiteTidy.Moment
