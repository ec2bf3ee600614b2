import SuiteTidy.Decimal.Written
import SuiteTidy.Proofs.Decimal.Rounding

/-!
The shortest decimal of a floating-point number. Main statements: it is a fraction that is read as
the number, and every decimal that is read as a number, whatever its digits, has the number as its
floating-point value.
-/

set_option autoImplicit false
set_option relaxedAutoImplicit false

namespace SuiteTidy.Decimal

/-! Powers of ten and of two. -/

private theorem zpow_le_zpow_of_pow_le {a b : ℚ} (ha : 1 < a) (hb : 1 < b) {p q : Nat} (hq : q ≠ 0)
    (hpower : a ^ p ≤ b ^ q) {e k : Int} (hk : 0 ≤ k) (h : e * q ≤ p * k) : a ^ e ≤ b ^ k := by
  have hb0 : 0 < b := by linarith
  have hmul : (a ^ e) ^ q ≤ (b ^ k) ^ q :=
    calc (a ^ e) ^ q = a ^ (e * q) := by rw [← zpow_natCast, ← zpow_mul]
      _ ≤ a ^ ((p : Int) * k) := zpow_le_zpow_right₀ ha.le h
      _ = (a ^ p) ^ k := by rw [zpow_mul, zpow_natCast]
      _ ≤ (b ^ q) ^ k := zpow_le_zpow_left₀ hk (by positivity) hpower
      _ = (b ^ k) ^ q := by rw [← zpow_natCast, ← zpow_natCast, ← zpow_mul, ← zpow_mul, mul_comm]
  exact le_of_pow_le_pow_left₀ hq (by positivity) hmul

/-- Powers of ten and of two are compared through the ratio `30103 / 100000`. It is not exact, but
one power of ten makes up for that. -/
private theorem zpow_ten_le_zpow_two {e k : Int} (hk : -10000 ≤ k ∧ k ≤ 10000)
    (h : 100000 * (e + 1) ≤ 30103 * k) : (10 : ℚ) ^ e ≤ 2 ^ k := by
  rcases le_total 0 k with hsign | hsign
  · exact zpow_le_zpow_of_pow_le (p := 31) (q := 103) (by norm_num) (by norm_num) (by decide)
      (by norm_num) hsign (by omega)
  · have hinverse : (2 : ℚ) ^ (-k) ≤ 10 ^ (-e) :=
      zpow_le_zpow_of_pow_le (p := 93) (q := 28) (by norm_num) (by norm_num) (by decide)
        (by norm_num) (by omega) (by omega)
    rw [zpow_neg, zpow_neg] at hinverse
    exact (inv_le_inv₀ (by positivity) (by positivity)).mp hinverse

private theorem zpow_two_le_zpow_ten {e k : Int} (hk : -10000 ≤ k ∧ k ≤ 10000)
    (h : 30103 * k ≤ 100000 * (e - 1)) : (2 : ℚ) ^ k ≤ 10 ^ e := by
  have hinverse : (10 : ℚ) ^ (-e) ≤ 2 ^ (-k) := zpow_ten_le_zpow_two (by omega) (by omega)
  rw [zpow_neg, zpow_neg] at hinverse
  exact (inv_le_inv₀ (by positivity) (by positivity)).mp hinverse

private theorem powerOf_ten_le_iff {num den : Nat} (hden : 0 < den) (e : Int) :
    (powerOf 10 e).1 * den ≤ num * (powerOf 10 e).2 ↔ (10 : ℚ) ^ e ≤ num / den := by
  obtain ⟨hdown, hpower⟩ := powerOf_eq (show 0 < 10 by decide) e
  have hdown' : (0 : ℚ) < (powerOf 10 e).2 := by exact_mod_cast hdown
  rw [le_div_iff₀ (by exact_mod_cast hden), ← mul_le_mul_iff_of_pos_right hdown', mul_right_comm,
    show ((10 : ℚ) ^ e * (powerOf 10 e).2 : ℚ) = (powerOf 10 e).1 by exact_mod_cast hpower.symm]
  exact_mod_cast Iff.rfl

private theorem zpow_tenPower_le {num den : Nat} (hnum : 0 < num) (hden : 0 < den)
    (hbits : -9000 ≤ (num.log2 : Int) - den.log2 ∧ (num.log2 : Int) - den.log2 ≤ 9000) :
    (10 : ℚ) ^ tenPower num den ≤ num / den ∧
      30103 * ((num.log2 : Int) - den.log2 - 1) < 100000 * (tenPower num den + 2) := by
  have hlow := (zpow_lt_natCast_div hnum hden).1
  unfold tenPower
  simp only [powerOf_ten_le_iff hden]
  generalize (num.log2 : Int) - den.log2 = bits at *
  have hguess : (10 : ℚ) ^ ((bits - 1) * 30103 / 100000 - 1) ≤ num / den :=
    (zpow_ten_le_zpow_two (by omega) (by omega)).trans hlow.le
  cases hfound : [(bits - 1) * 30103 / 100000 + 2, (bits - 1) * 30103 / 100000 + 1,
      (bits - 1) * 30103 / 100000].find? fun e => decide ((10 : ℚ) ^ e ≤ num / den) with
  | none => exact ⟨hguess, by rw [Option.getD_none]; omega⟩
  | some e =>
    have hfits := List.find?_some hfound
    have hmem := List.mem_of_find?_eq_some hfound
    simp only [List.mem_cons, List.not_mem_nil, or_false] at hmem
    exact ⟨by simpa using hfits, by rw [Option.getD_some]; omega⟩

/-! Decimals in the cell of a number. -/

/-- What one unit of the last place is worth when a cell is compared with decimals at a place. -/
private def cellScale (e place : Int) : ℚ :=
  2 ^ e * (powerOf 2 (e - 2)).2 * (powerOf 10 place).2

private theorem cellScale_pos (e place : Int) : 0 < cellScale e place := by
  have htwo : (0 : ℚ) < (powerOf 2 (e - 2)).2 := by exact_mod_cast (powerOf_eq Nat.two_pos _).1
  have hten : (0 : ℚ) < (powerOf 10 place).2 := by
    exact_mod_cast (powerOf_eq (show 0 < 10 by decide) _).1
  unfold cellScale
  positivity

private theorem natCast_bound (c : Nat) (e place : Int) :
    ((c * (powerOf 2 (e - 2)).1 * (powerOf 10 place).2 : Nat) : ℚ) =
      c / 4 * cellScale e place := by
  have hpower := (powerOf_eq Nat.two_pos (e - 2)).2
  rw [Nat.cast_mul, Nat.cast_mul, hpower, cellScale, Nat.cast_two, zpow_sub₀ (by norm_num)]
  ring

private theorem natCast_decimal (digits : Nat) (e place : Int) :
    ((digits * (powerOf 10 place).1 * (powerOf 2 (e - 2)).2 : Nat) : ℚ) =
      digits * 10 ^ place * 2 ^ (-e) * cellScale e place := by
  have hpower := (powerOf_eq (show 0 < 10 by decide) place).2
  have hcancel : (2 : ℚ) ^ (-e) * 2 ^ e = 1 := by
    rw [← zpow_add₀ (by norm_num), neg_add_cancel, zpow_zero]
  rw [Nat.cast_mul, Nat.cast_mul, hpower, cellScale]
  push_cast
  linear_combination
    (-digits * 10 ^ place * (powerOf 2 (e - 2)).2 * (powerOf 10 place).2 : ℚ) * hcancel

private theorem natCast_low {m : Nat} (hm : 0 < m) (e : Int) :
    ((cellOf m e).low : ℚ) / 4 = m - reachBelow m e := by
  simp only [cellOf, reachBelow, Nat.pow_eq, gt_iff_lt]
  split_ifs
  · rw [Nat.cast_sub (by omega)]
    push_cast
    ring
  · rw [Nat.cast_sub (by omega)]
    push_cast
    ring

private theorem holds_cellOf_iff {m : Nat} (hm : 0 < m) (e : Int) (digits : Nat) (place : Int) :
    (cellOf m e).holds digits place = true ↔ ReadAs m e (digits * 10 ^ place) := by
  have hscale := cellScale_pos e place
  have hlow := natCast_low hm e
  have hhigh : ((cellOf m e).high : ℚ) / 4 = m + 1 / 2 := by
    simp only [cellOf]
    push_cast
    ring
  have hle : ∀ c d : Nat, c * (powerOf 2 (e - 2)).1 * (powerOf 10 place).2 ≤
      d * (powerOf 10 place).1 * (powerOf 2 (e - 2)).2 ↔
        (c : ℚ) / 4 ≤ d * 10 ^ place * 2 ^ (-e) := by
    intro c d
    rw [← Nat.cast_le (α := ℚ), natCast_bound, natCast_decimal, mul_le_mul_iff_of_pos_right hscale]
  have hge : ∀ c d : Nat, d * (powerOf 10 place).1 * (powerOf 2 (e - 2)).2 ≤
      c * (powerOf 2 (e - 2)).1 * (powerOf 10 place).2 ↔
        d * 10 ^ place * 2 ^ (-e) ≤ (c : ℚ) / 4 := by
    intro c d
    rw [← Nat.cast_le (α := ℚ), natCast_bound, natCast_decimal, mul_le_mul_iff_of_pos_right hscale]
  have hunit : (cellOf m e).unitUp = (powerOf 2 (e - 2)).1 ∧
      (cellOf m e).unitDown = (powerOf 2 (e - 2)).2 := ⟨rfl, rfl⟩
  have hclosed : (cellOf m e).closed = decide (m % 2 = 0) := rfl
  rw [Cell.holds, hunit.1, hunit.2, hclosed]
  by_cases heven : m % 2 = 0
  · simp only [heven, decide_true, if_true, decide_eq_true_eq, hle, hge, hlow, hhigh]
    exact ⟨fun h => ⟨h.1, h.2, fun hodd => by omega⟩, fun h => ⟨h.low, h.high⟩⟩
  · simp only [heven, decide_false, Bool.false_eq_true, if_false, decide_eq_true_eq, ← not_le, hle,
      hge, hlow, hhigh]
    simp only [not_le]
    exact ⟨fun h => ⟨h.1.le, h.2.le, fun _ => h⟩, fun h => h.odd (by omega)⟩

/-! The search. -/

def Cell.below (cell : Cell) (place : Int) : Nat :=
  cell.value * cell.unitUp * (powerOf 10 place).2 / (cell.unitDown * (powerOf 10 place).1)

private theorem Cell.holds_of_onGrid? {cell : Cell} {place : Int} {digits : Nat}
    (h : cell.onGrid? place = some digits) : cell.holds digits place = true := by
  obtain ⟨hdown, hup⟩ := roundDiv_mem (cell.value * cell.unitUp * (powerOf 10 place).2)
    (cell.unitDown * (powerOf 10 place).1)
  unfold Cell.onGrid? at h
  dsimp only at h
  rw [← Cell.below] at h hdown hup
  split at h
  case h_1 hbelow habove =>
    have hrounded := Option.some.inj h
    rcases (show digits = cell.below place ∨ digits = cell.below place + 1 by omega) with rfl | rfl
    · exact hbelow
    · exact habove
  case h_2 hbelow _ => exact Option.some.inj h ▸ hbelow
  case h_3 _ habove => exact Option.some.inj h ▸ habove
  case h_4 => cases h

private theorem Cell.onGrid?_ne_none {cell : Cell} {place : Int}
    (h : cell.holds (cell.below place + 1) place = true) : cell.onGrid? place ≠ none := by
  unfold Cell.onGrid?
  dsimp only
  rw [← Cell.below, h]
  cases cell.holds (cell.below place) place <;> simp

private theorem Cell.holds_search {cell : Cell} {more : Nat} {place : Int}
    (h : cell.onGrid? (place - more) ≠ none) :
    cell.holds (cell.search more place).1 (cell.search more place).2 = true ∧
      place - more ≤ (cell.search more place).2 := by
  induction more generalizing place with
  | zero =>
    obtain ⟨digits, hdigits⟩ := Option.ne_none_iff_exists'.mp h
    rw [Nat.cast_zero, sub_zero] at hdigits
    simp [Cell.search, hdigits, holds_of_onGrid? hdigits]
  | succ more ih =>
    rw [Cell.search]
    cases hgrid : cell.onGrid? place with
    | some digits => exact ⟨holds_of_onGrid? hgrid, by push_cast; omega⟩
    | none =>
      have hplace : place - (more + 1 : Nat) = place - 1 - more := by
        push_cast
        ring
      rw [hplace] at h ⊢
      exact ih h

private theorem below_cellOf_mem (m : Nat) (e place : Int) :
    (cellOf m e).below place * ((10 : ℚ) ^ place * 2 ^ (-e)) ≤ m ∧
      (m : ℚ) < ((cellOf m e).below place + 1) * (10 ^ place * 2 ^ (-e)) := by
  let num := 4 * m * (powerOf 2 (e - 2)).1 * (powerOf 10 place).2
  let den := 1 * (powerOf 10 place).1 * (powerOf 2 (e - 2)).2
  have hscale := cellScale_pos e place
  have hnum : (num : ℚ) = m * cellScale e place := by
    rw [natCast_bound]
    push_cast
    ring
  have hden : (den : ℚ) = 10 ^ place * 2 ^ (-e) * cellScale e place := by
    rw [natCast_decimal, Nat.cast_one, one_mul]
  have hdenPos : (0 : ℚ) < den := by
    rw [hden]
    positivity
  have hbelow : (cellOf m e).below place = num / den := by
    simp only [num, den, Nat.one_mul, Nat.mul_comm (powerOf 10 place).1]
    rfl
  have hlow : ((num / den : Nat) : ℚ) * den ≤ num := by exact_mod_cast Nat.div_mul_le_self num den
  have hhigh : (num : ℚ) < ((num / den : Nat) + 1) * den := by
    have hlt := Nat.lt_div_mul_add (a := num) (b := den) (by exact_mod_cast hdenPos)
    rw [add_mul, one_mul]
    exact_mod_cast hlt
  rw [hnum, hden, ← mul_assoc] at hlow hhigh
  rw [hbelow]
  exact ⟨(mul_le_mul_iff_of_pos_right hscale).mp hlow,
    (mul_lt_mul_iff_of_pos_right hscale).mp hhigh⟩

private theorem readAs_below {m : Nat} (hbound : m < 2 ^ 53) {e place : Int}
    (hfine : (10 : ℚ) ^ place * 2 ^ (-e) ≤ m * 10 ^ (-17 : Int)) :
    ReadAs m e (((cellOf m e).below place + 1 : Nat) * 10 ^ place) := by
  obtain ⟨hlow, hhigh⟩ := below_cellOf_mem m e place
  have hreach : 0 < reachBelow m e := by
    unfold reachBelow
    split_ifs <;> norm_num
  have hm : (m : ℚ) < 2 ^ 53 := by exact_mod_cast hbound
  have hstep : (m : ℚ) * 10 ^ (-17 : Int) < 1 / 2 :=
    calc (m : ℚ) * 10 ^ (-17 : Int) < 2 ^ 53 * 10 ^ (-17 : Int) :=
          mul_lt_mul_of_pos_right hm (by positivity)
      _ < 1 / 2 := by norm_num
  have hinside : (m : ℚ) - reachBelow m e <
        ((cellOf m e).below place + 1 : Nat) * 10 ^ place * 2 ^ (-e) ∧
      ((cellOf m e).below place + 1 : Nat) * 10 ^ place * 2 ^ (-e) < (m : ℚ) + 1 / 2 := by
    rw [mul_assoc]
    push_cast
    refine ⟨by linarith, ?_⟩
    rw [add_mul, one_mul]
    exact add_lt_add_of_le_of_lt hlow (hfine.trans_lt hstep)
  exact ⟨hinside.1.le, hinside.2.le, fun _ => hinside⟩

/-! The shortest decimal. -/

section Finite

variable {m : Nat} {e : Int} (hm : 0 < m) (hbound : m < 2 ^ 53) (hleast : -1074 ≤ e)
  (hlargest : e ≤ 972)

include hm hbound hleast hlargest

private theorem magnitude_mem :
    (2 : ℚ) ^ (-1074 : Int) ≤ magnitude m e ∧ magnitude m e < 2 ^ (1025 : Int) := by
  have hone : (1 : ℚ) ≤ m := by exact_mod_cast hm
  have hm53 : (m : ℚ) < 2 ^ (53 : Int) := by exact_mod_cast hbound
  constructor
  · calc (2 : ℚ) ^ (-1074 : Int) ≤ 2 ^ e := zpow_le_zpow_right₀ (by norm_num) hleast
      _ ≤ magnitude m e := le_mul_of_one_le_left (by positivity) hone
  · calc magnitude m e < 2 ^ (53 : Int) * 2 ^ e := mul_lt_mul_of_pos_right hm53 (by positivity)
      _ = 2 ^ (53 + e) := by rw [← zpow_add₀ (by norm_num)]
      _ ≤ 2 ^ (1025 : Int) := zpow_le_zpow_right₀ (by norm_num) (by omega)

theorem readAs_shortest :
    ReadAs m e ((shortest m e).1 * 10 ^ (shortest m e).2) ∧ -400 ≤ (shortest m e).2 := by
  obtain ⟨hlow, hhigh⟩ := magnitude_mem hm hbound hleast hlargest
  obtain ⟨hden, hnum⟩ := fractionOf_eq m e
  have hden' : (0 : ℚ) < (fractionOf m e).2 := by exact_mod_cast hden
  have hsize : ((fractionOf m e).1 : ℚ) / (fractionOf m e).2 = magnitude m e := by
    rw [hnum, mul_div_cancel_right₀ _ hden'.ne']
  have hnum' : 0 < (fractionOf m e).1 := by
    have hpos : (0 : ℚ) < (fractionOf m e).1 := by
      rw [hnum]
      exact mul_pos (magnitude_pos hm e) hden'
    exact_mod_cast hpos
  have hbits := zpow_lt_natCast_div hnum' hden
  rw [hsize] at hbits
  have habove : ((fractionOf m e).1.log2 : Int) - (fractionOf m e).2.log2 - 1 < 1025 :=
    (zpow_lt_zpow_iff_right₀ (by norm_num)).mp (hbits.1.trans hhigh)
  have hbelow : -1074 < ((fractionOf m e).1.log2 : Int) - (fractionOf m e).2.log2 + 1 :=
    (zpow_lt_zpow_iff_right₀ (by norm_num)).mp (hlow.trans_lt hbits.2)
  obtain ⟨hstart, hnear⟩ := zpow_tenPower_le hnum' hden (by omega)
  rw [hsize] at hstart
  have hfinest :
      (cellOf m e).onGrid? (tenPower (fractionOf m e).1 (fractionOf m e).2 - (17 : Nat)) ≠
      none := by
    apply Cell.onGrid?_ne_none
    rw [holds_cellOf_iff hm]
    apply readAs_below hbound
    have hcancel : magnitude m e * 2 ^ (-e) = m := by
      rw [magnitude, mul_assoc, ← zpow_add₀ (by norm_num), add_neg_cancel, zpow_zero, mul_one]
    calc (10 : ℚ) ^ (tenPower (fractionOf m e).1 (fractionOf m e).2 - (17 : Nat)) * 2 ^ (-e)
        = 10 ^ tenPower (fractionOf m e).1 (fractionOf m e).2 * 2 ^ (-e) * 10 ^ (-17 : Int) := by
          rw [sub_eq_add_neg, zpow_add₀ (by norm_num), mul_right_comm]
          rfl
      _ ≤ magnitude m e * 2 ^ (-e) * 10 ^ (-17 : Int) := by gcongr
      _ = m * 10 ^ (-17 : Int) := by rw [hcancel]
  obtain ⟨hholds, hplace⟩ := Cell.holds_search hfinest
  exact ⟨(holds_cellOf_iff hm _ _ _).mp hholds, hplace.trans' (by omega)⟩

end Finite

/-! Reading decimals. -/

theorem ReadAs.mem {m : Nat} {e : Int} {w : ℚ} (h : ReadAs m e w) (hm : 0 < m) (hbound : m < 2 ^ 53)
    (hleast : -1074 ≤ e) (hlargest : e ≤ 972) :
    (2 : ℚ) ^ (-1075 : Int) ≤ w ∧ w < 2 ^ (1026 : Int) := by
  obtain ⟨hlow, hhigh⟩ := magnitude_mem hm hbound hleast hlargest
  have hone : (1 : ℚ) ≤ m := by exact_mod_cast hm
  have hcancel : w * 2 ^ (-e) * 2 ^ e = w := by
    rw [mul_assoc, ← zpow_add₀ (by norm_num), neg_add_cancel, zpow_zero, mul_one]
  -- The fraction lies between half and twice the number.
  have hhalf : magnitude m e * 2⁻¹ ≤ w := by
    have hreach := reachBelow_le m e
    have hscaled : (m : ℚ) * 2⁻¹ ≤ w * 2 ^ (-e) := by linarith [h.low]
    have hmul := mul_le_mul_of_nonneg_right hscaled (show (0 : ℚ) ≤ 2 ^ e by positivity)
    rw [hcancel] at hmul
    linarith [hmul, show magnitude m e * 2⁻¹ = m * 2⁻¹ * 2 ^ e by rw [magnitude]; ring]
  have htwice : w ≤ magnitude m e * 2 := by
    have hscaled : w * 2 ^ (-e) ≤ (m : ℚ) * 2 := by linarith [h.high]
    have hmul := mul_le_mul_of_nonneg_right hscaled (show (0 : ℚ) ≤ 2 ^ e by positivity)
    rw [hcancel] at hmul
    linarith [hmul, show magnitude m e * 2 = m * 2 * 2 ^ e by rw [magnitude]; ring]
  constructor
  · calc (2 : ℚ) ^ (-1075 : Int) = 2 ^ (-1074 : Int) * 2⁻¹ := by
          rw [← zpow_sub_one₀ (by norm_num)]
          rfl
      _ ≤ magnitude m e * 2⁻¹ := by gcongr
      _ ≤ w := hhalf
  · calc w ≤ magnitude m e * 2 := htwice
      _ < 2 ^ (1025 : Int) * 2 := by gcongr
      _ = 2 ^ (1026 : Int) := by
          rw [← zpow_add_one₀ (by norm_num)]
          rfl

/-- The estimate of the size of a decimal by the leading bit of its digits is good enough to tell
finite numbers from those that are far too large or too small. -/
private theorem size_mem {digits : Nat} (hdigits : 0 < digits) {place : Int}
    (hplace : -1000 ≤ place) (hlow : (2 : ℚ) ^ (-1075 : Int) ≤ digits * 10 ^ place)
    (hhigh : (digits * 10 ^ place : ℚ) < 2 ^ (1026 : Int)) :
    -400 ≤ (digits.log2 : Int) * 30103 / 100000 + place ∧
      (digits.log2 : Int) * 30103 / 100000 + place ≤ 400 := by
  have hten : (0 : ℚ) < 10 ^ place := by positivity
  have hlead : (2 : ℚ) ^ (digits.log2 : Int) ≤ digits := by
    exact_mod_cast Nat.log2_self_le hdigits.ne'
  have hnext : (digits : ℚ) < 2 ^ ((digits.log2 : Int) + 1) := by
    exact_mod_cast (Nat.lt_log2_self : digits < 2 ^ (digits.log2 + 1))
  have hnonneg : 0 ≤ (digits.log2 : Int) := Int.natCast_nonneg _
  generalize (digits.log2 : Int) = l at *
  have hl : l ≤ 5026 := by
    have hpower : (2 : ℚ) ^ (l - 4000) < 2 ^ (1026 : Int) :=
      calc (2 : ℚ) ^ (l - 4000) = 2 ^ l * 2 ^ (-4000 : Int) := by
            rw [← zpow_add₀ (by norm_num)]
            rfl
        _ ≤ 2 ^ l * 10 ^ place := by
            gcongr
            exact (zpow_two_le_zpow_ten (e := -1000) (by omega) (by omega)).trans
              (zpow_le_zpow_right₀ (by norm_num) hplace)
        _ ≤ digits * 10 ^ place := by gcongr
        _ < 2 ^ (1026 : Int) := hhigh
    have := (zpow_lt_zpow_iff_right₀ (by norm_num)).mp hpower
    omega
  constructor
  · by_contra hsmall
    have htiny : (digits * 10 ^ place : ℚ) < 2 ^ (-1075 : Int) :=
      calc (digits * 10 ^ place : ℚ) < 2 ^ (l + 1) * 10 ^ place := by gcongr
        _ ≤ 10 ^ (l * 30103 / 100000 + 3) * 10 ^ place := by
            gcongr
            exact zpow_two_le_zpow_ten (by omega) (by omega)
        _ = 10 ^ (l * 30103 / 100000 + 3 + place) := by rw [← zpow_add₀ (by norm_num)]
        _ ≤ 2 ^ (-1075 : Int) := (zpow_le_zpow_right₀ (by norm_num) (by omega)).trans
            (zpow_ten_le_zpow_two (e := -398) (by omega) (by omega))
    exact absurd htiny hlow.not_gt
  · by_contra hlarge
    have hhuge : (2 : ℚ) ^ (1026 : Int) ≤ digits * 10 ^ place :=
      calc (2 : ℚ) ^ (1026 : Int) ≤ 10 ^ (l * 30103 / 100000 - 1 + place) :=
            (zpow_two_le_zpow_ten (e := 400) (by omega) (by omega)).trans
              (zpow_le_zpow_right₀ (by norm_num) (by omega))
        _ = 10 ^ (l * 30103 / 100000 - 1) * 10 ^ place := by rw [← zpow_add₀ (by norm_num)]
        _ ≤ 2 ^ l * 10 ^ place := by
            gcongr
            exact zpow_ten_le_zpow_two (by omega) (by omega)
        _ ≤ digits * 10 ^ place := by gcongr
    exact absurd hhigh hhuge.not_gt

theorem exponent_mem {x : Float} {negative : Bool} {m : Nat} {e : Int}
    (hx : parts x = .finite negative m e) : m < 2 ^ 53 ∧ -1074 ≤ e ∧ e ≤ 972 := by
  obtain ⟨hbound, hleast, -⟩ : (Parts.finite negative m e).Canonical := hx ▸ canonical_parts x
  have hfinite := (toNat_toBits_of_finite hx).1
  unfold sizeBits at hfinite
  exact ⟨hbound, hleast, by omega⟩

theorem ofDecimal_of_readAs {x : Float} {negative : Bool} {m : Nat} {e : Int}
    (hx : parts x = .finite negative m e) (hm : 0 < m) {digits : Nat} {place : Int}
    (hplace : -1000 ≤ place) (h : ReadAs m e (digits * 10 ^ place)) :
    ofDecimal negative digits place = x := by
  obtain ⟨hbound, hleast, hlargest⟩ := exponent_mem hx
  obtain ⟨hlow, hhigh⟩ := h.mem hm hbound hleast hlargest
  have hdigits : digits ≠ 0 := by
    have hpos := h.pos hm
    rintro rfl
    simp at hpos
  obtain ⟨hsmall, hlarge⟩ := size_mem (Nat.pos_of_ne_zero hdigits) hplace hlow hhigh
  have hfraction : ((digits * (powerOf 10 place).1 : Nat) : ℚ) / (powerOf 10 place).2 =
      digits * 10 ^ place := by
    have hscaled := natCast_scaled_div (show 0 < 10 by decide) digits 1 place
    rw [Nat.one_mul, Nat.cast_one, div_one] at hscaled
    exact_mod_cast hscaled
  rw [← hfraction] at h
  have hnearest := nearest_of_readAs hx hm (powerOf_eq (show 0 < 10 by decide) place).1 h
  unfold ofDecimal
  dsimp only
  rw [if_neg (by omega), if_neg (by omega)]
  exact hnearest

end SuiteTidy.Decimal
