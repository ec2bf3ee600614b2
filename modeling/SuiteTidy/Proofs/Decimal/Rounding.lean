import SuiteTidy.Proofs.Decimal.Nearest

/-!
Fractions that are read as a given floating-point number. They lie between the middles of the ways
to the next smaller and the next larger number, and a middle itself belongs to the number with the
even mantissa. Main statement: the number nearest to every such fraction is the given one.
-/

set_option autoImplicit false
set_option relaxedAutoImplicit false

namespace SuiteTidy.Decimal

open Float.Model Float.Model.UnpackedFloat

/-! The bits of a floating-point number. -/

def signBits (negative : Bool) : Nat := if negative then 2 ^ 63 else 0

/-- The bits of a size. The exponent field of a normal number is one more than the place of its
mantissa, and the leading bit of the mantissa adds that one. -/
def sizeBits (mantissa : Nat) (exponent : Int) : Nat :=
  mantissa + (exponent + 1074).toNat * 2 ^ 52

theorem toNat_toBits_of_finite {x : Float} {negative : Bool} {m : Nat} {e : Int}
    (h : parts x = .finite negative m e) :
    sizeBits m e < 2047 * 2 ^ 52 ∧ x.toBits.toNat = sizeBits m e + signBits negative := by
  have hword : x.toBits.toNat < 2 ^ 64 := x.toBits.toNat_lt
  unfold parts at h
  simp only [Nat.pow_eq] at h
  generalize x.toBits.toNat = word at *
  split_ifs at h with hfull hfraction hfield
  · simp only [Parts.finite.injEq] at h
    obtain ⟨rfl, rfl, rfl⟩ := h
    simp only [sizeBits, signBits, decide_eq_true_eq]
    split_ifs <;> omega
  · simp only [Parts.finite.injEq] at h
    obtain ⟨rfl, rfl, rfl⟩ := h
    simp only [sizeBits, signBits, decide_eq_true_eq]
    split_ifs <;> omega

private theorem ofBits_of_finite {x : Float} {negative : Bool} {m : Nat} {e : Int}
    (h : parts x = .finite negative m e) :
    Float.ofBits (sizeBits m e + signBits negative).toUInt64 = x := by
  rw [← (toNat_toBits_of_finite h).2]
  simp only [Nat.toUInt64_eq, UInt64.ofNat_toNat, Float.ofBits_toBits]

/-! The place of the last bit. -/

/-- The place of the last mantissa bit of a fraction: as far as its mantissa has its leading bit, or
the last place of the smallest numbers. -/
structure LastPlace (w : ℚ) (shift : Int) : Prop where
  le_least : shift ≤ 1074
  lt_bound : w * 2 ^ shift < 2 ^ 53
  le_lead : shift = 1074 ∨ 2 ^ 52 ≤ w * 2 ^ shift

private theorem mul_zpow_add_one (w : ℚ) (s : Int) : w * 2 ^ (s + 1) = 2 * (w * 2 ^ s) := by
  rw [zpow_add_one₀ (by norm_num)]
  ring

theorem LastPlace.unique {w : ℚ} (hw : 0 < w) {s t : Int} (hs : LastPlace w s)
    (ht : LastPlace w t) : s = t := by
  have hle : ∀ {s t : Int}, LastPlace w s → LastPlace w t → ¬ s < t := by
    intro s t hs ht hlt
    have hlead : 2 ^ 52 ≤ w * 2 ^ s := hs.le_lead.resolve_left (by have := ht.le_least; omega)
    have hnext : w * 2 ^ (s + 1) ≤ w * 2 ^ t := by
      gcongr
      · norm_num
      · omega
    have hbound := ht.lt_bound
    rw [mul_zpow_add_one] at hnext
    linarith
  rcases lt_trichotomy s t with h | h | h
  · exact absurd h (hle hs ht)
  · exact h
  · exact absurd h (hle ht hs)

theorem zpow_lt_natCast_div {num den : Nat} (hnum : 0 < num) (hden : 0 < den) :
    (2 : ℚ) ^ ((num.log2 : Int) - den.log2 - 1) < num / den ∧
      (num / den : ℚ) < 2 ^ ((num.log2 : Int) - den.log2 + 1) := by
  have hden' : (0 : ℚ) < den := by exact_mod_cast hden
  have hnumLow : (2 : ℚ) ^ num.log2 ≤ num := by exact_mod_cast Nat.log2_self_le hnum.ne'
  have hnumHigh : (num : ℚ) < 2 ^ (num.log2 + 1) := by exact_mod_cast Nat.lt_log2_self
  have hdenLow : (2 : ℚ) ^ den.log2 ≤ den := by exact_mod_cast Nat.log2_self_le hden.ne'
  have hdenHigh : (den : ℚ) < 2 ^ (den.log2 + 1) := by exact_mod_cast Nat.lt_log2_self
  constructor
  · rw [lt_div_iff₀ hden']
    calc (2 : ℚ) ^ ((num.log2 : Int) - den.log2 - 1) * den
        < 2 ^ ((num.log2 : Int) - den.log2 - 1) * 2 ^ (den.log2 + 1) := by gcongr
      _ = 2 ^ num.log2 := by
        rw [← zpow_natCast, ← zpow_natCast, ← zpow_add₀ (by norm_num)]
        congr 1
        push_cast
        ring
      _ ≤ num := hnumLow
  · rw [div_lt_iff₀ hden']
    calc (num : ℚ) < 2 ^ (num.log2 + 1) := hnumHigh
      _ = 2 ^ ((num.log2 : Int) - den.log2 + 1) * 2 ^ den.log2 := by
        rw [← zpow_natCast, ← zpow_natCast, ← zpow_add₀ (by norm_num)]
        congr 1
        push_cast
        ring
      _ ≤ 2 ^ ((num.log2 : Int) - den.log2 + 1) * den := by gcongr

theorem natCast_scaled_div {base : Nat} (hbase : 0 < base) (num den : Nat) (e : Int) :
    ((num * (powerOf base e).1 : Nat) : ℚ) / (den * (powerOf base e).2 : Nat) =
      num / den * base ^ e := by
  obtain ⟨hpos, hpower⟩ := powerOf_eq hbase e
  have hne : ((powerOf base e).2 : ℚ) ≠ 0 := by exact_mod_cast hpos.ne'
  rw [Nat.cast_mul, Nat.cast_mul, hpower, ← mul_assoc, mul_div_mul_right _ _ hne,
    mul_div_right_comm]

private theorem le_div_iff_cast_le (num : Nat) {den : Nat} (hden : 0 < den) (k : Nat) :
    k ≤ num / den ↔ (k : ℚ) ≤ num / den := by
  rw [Nat.le_div_iff_mul_le hden, le_div_iff₀ (by exact_mod_cast hden)]
  exact_mod_cast Iff.rfl

private theorem LastPlace.of_lead {w : ℚ} (hw : 0 < w) {s : Int} (hlow : 2 ^ 52 ≤ w * 2 ^ s)
    (hhigh : w * 2 ^ s < 2 ^ 53) : LastPlace w (min s 1074) := by
  by_cases hs : s ≤ 1074
  · rw [min_eq_left hs]
    exact ⟨hs, hhigh, .inr hlow⟩
  · have hle : w * 2 ^ (1074 : Int) ≤ w * 2 ^ s := by
      gcongr
      · norm_num
      · omega
    rw [min_eq_right (by omega)]
    exact ⟨le_rfl, hle.trans_lt hhigh, .inl rfl⟩

private theorem lastPlace_mantissaShift {num den : Nat} (hnum : 0 < num) (hden : 0 < den) :
    LastPlace (num / den) (mantissaShift num den) := by
  obtain ⟨hlow, hhigh⟩ := zpow_lt_natCast_div hnum hden
  have hw : (0 : ℚ) < num / den := by positivity
  have hdown : 0 < den * (powerOf 2 (53 - ((num.log2 : Int) - den.log2))).2 :=
    Nat.mul_pos hden (powerOf_eq Nat.two_pos _).1
  have hfull := le_div_iff_cast_le (num * (powerOf 2 (53 - ((num.log2 : Int) - den.log2))).1) hdown
    (2 ^ 53)
  rw [natCast_scaled_div Nat.two_pos] at hfull
  unfold mantissaShift
  simp only [Nat.pow_eq, ge_iff_le, hfull]
  generalize (num.log2 : Int) - den.log2 = bits at *
  generalize (num / den : ℚ) = w at *
  push_cast
  -- The leading bits of the numerator and the denominator leave two places for that of the
  -- fraction.
  have hlead : (2 : ℚ) ^ 52 < w * 2 ^ (53 - bits) := by
    have hscale : (2 : ℚ) ^ (bits - 1) * 2 ^ (53 - bits) = 2 ^ (52 : Int) := by
      rw [← zpow_add₀ (by norm_num)]
      congr 1
      ring
    have hmul := mul_lt_mul_of_pos_right hlow (show (0 : ℚ) < 2 ^ (53 - bits) by positivity)
    rw [hscale] at hmul
    exact_mod_cast hmul
  have hbound : w * 2 ^ (53 - bits) < 2 ^ 54 := by
    have hscale : (2 : ℚ) ^ (bits + 1) * 2 ^ (53 - bits) = 2 ^ (54 : Int) := by
      rw [← zpow_add₀ (by norm_num)]
      congr 1
      ring
    have hmul := mul_lt_mul_of_pos_right hhigh (show (0 : ℚ) < 2 ^ (53 - bits) by positivity)
    rw [hscale] at hmul
    exact_mod_cast hmul
  split_ifs with h
  · have hstep := mul_zpow_add_one w (53 - bits - 1)
    rw [sub_add_cancel] at hstep
    exact .of_lead hw (by linarith) (by linarith)
  · exact .of_lead hw hlead.le (not_le.mp h)

/-! Rounding. -/

private theorem roundDiv_eq {num den k : Nat} (hden : 0 < den) (hlow : (k : ℚ) - 1 / 2 ≤ num / den)
    (hhigh : (num / den : ℚ) ≤ k + 1 / 2)
    (hodd : k % 2 = 1 → (k : ℚ) - 1 / 2 < num / den ∧ (num / den : ℚ) < k + 1 / 2) :
    roundDiv num den = k := by
  have hden' : (0 : ℚ) < den := by exact_mod_cast hden
  have hnum : (num / den : ℚ) * den = num := div_mul_cancel₀ _ hden'.ne'
  have hlow' : 2 * (den * k) ≤ 2 * num + den := by
    have hmul := mul_le_mul_of_nonneg_right hlow hden'.le
    have hcast : (2 * (den * k) : ℚ) ≤ 2 * num + den := by linarith
    exact_mod_cast hcast
  have hhigh' : 2 * num ≤ 2 * (den * k) + den := by
    have hmul := mul_le_mul_of_nonneg_right hhigh hden'.le
    have hcast : (2 * num : ℚ) ≤ 2 * (den * k) + den := by linarith
    exact_mod_cast hcast
  have hodd' : k % 2 = 1 → 2 * (den * k) < 2 * num + den ∧ 2 * num < 2 * (den * k) + den := by
    intro hk
    have hmul := mul_lt_mul_of_pos_right (hodd hk).1 hden'
    have hmul' := mul_lt_mul_of_pos_right (hodd hk).2 hden'
    have hcast : (2 * (den * k) : ℚ) < 2 * num + den := by linarith
    have hcast' : (2 * num : ℚ) < 2 * (den * k) + den := by linarith
    exact ⟨by exact_mod_cast hcast, by exact_mod_cast hcast'⟩
  have hsplit := Nat.div_add_mod num den
  have hmod := Nat.mod_lt num hden
  unfold roundDiv
  generalize num / den = q at *
  generalize num % den = r at *
  -- The quotient is the integer or the one below it.
  have hle : q ≤ k := by
    by_contra hq
    have := Nat.mul_le_mul_left den (show k + 1 ≤ q by omega)
    rw [Nat.mul_add, Nat.mul_one] at this
    omega
  have hge : k ≤ q + 1 := by
    by_contra hq
    have := Nat.mul_le_mul_left den (show q + 2 ≤ k by omega)
    rw [Nat.mul_add] at this
    omega
  dsimp only
  rcases Nat.le_iff_lt_or_eq.mp hle with hlt | rfl
  · obtain rfl : k = q + 1 := by omega
    rw [Nat.mul_add, Nat.mul_one] at hlow' hodd'
    rw [if_pos]
    omega
  · rw [if_neg]
    omega

private theorem scaledQuotient_eq {num den k : Nat} (hden : 0 < den) {s : Int}
    (hlow : (k : ℚ) - 1 / 2 ≤ num / den * 2 ^ s) (hhigh : (num / den * 2 ^ s : ℚ) ≤ k + 1 / 2)
    (hodd : k % 2 = 1 →
      (k : ℚ) - 1 / 2 < num / den * 2 ^ s ∧ (num / den * 2 ^ s : ℚ) < k + 1 / 2) :
    scaledQuotient num den s = k := by
  have hscaled : ((num * (powerOf 2 s).1 : Nat) : ℚ) / (den * (powerOf 2 s).2 : Nat) =
      num / den * 2 ^ s := natCast_scaled_div Nat.two_pos num den s
  rw [← hscaled] at hlow hhigh hodd
  exact roundDiv_eq (Nat.mul_pos hden (powerOf_eq Nat.two_pos s).1) hlow hhigh hodd

/-- How far the fractions below a number that are read as the number reach, in units of its last
place. Below a power of two the next smaller number is only half as far away. -/
def reachBelow (m : Nat) (e : Int) : ℚ := if m = 2 ^ 52 ∧ -1074 < e then 1 / 4 else 1 / 2

structure ReadAs (m : Nat) (e : Int) (w : ℚ) : Prop where
  low : m - reachBelow m e ≤ w * 2 ^ (-e)
  high : w * 2 ^ (-e) ≤ m + 1 / 2
  odd : m % 2 = 1 → m - reachBelow m e < w * 2 ^ (-e) ∧ w * 2 ^ (-e) < m + 1 / 2

theorem reachBelow_le (m : Nat) (e : Int) : reachBelow m e ≤ 1 / 2 := by
  unfold reachBelow
  split_ifs <;> norm_num

theorem ReadAs.pos {m : Nat} {e : Int} {w : ℚ} (h : ReadAs m e w) (hm : 0 < m) : 0 < w := by
  have hreach := reachBelow_le m e
  have hlow := h.low
  have hone : (1 : ℚ) ≤ m := by exact_mod_cast hm
  have hscaled : 0 < w * 2 ^ (-e) := by linarith
  exact pos_of_mul_pos_left hscaled (by positivity)

section Canonical

variable {negative : Bool} {m : Nat} {e : Int} {w : ℚ}
  (hcanonical : (Parts.finite negative m e).Canonical) (h : ReadAs m e w)

include hcanonical h

/-- The last bit of a fraction that is read as a number has the place of the number's, unless the
number is a power of two and the fraction lies below it. -/
private theorem ReadAs.lastPlace :
    LastPlace w (-e) ∨
      m = 2 ^ 52 ∧ LastPlace w (-e + 1) ∧ (2 : ℚ) ^ 53 - 1 / 2 ≤ w * 2 ^ (-e + 1) := by
  obtain ⟨hbound, hleast, hlead⟩ := hcanonical
  have hhigh : w * 2 ^ (-e) < 2 ^ 53 := by
    have hm53 : (m : ℚ) + 1 ≤ 2 ^ 53 := by exact_mod_cast hbound
    linarith [h.high]
  by_cases hfull : 2 ^ 52 ≤ w * 2 ^ (-e)
  · exact .inl ⟨by omega, hhigh, .inr hfull⟩
  rcases hlead with rfl | hlead
  · exact .inl ⟨by norm_num, hhigh, .inl rfl⟩
  -- The fraction is below the leading bit, so the mantissa is just that bit.
  have hpower : m = 2 ^ 52 := by
    by_contra hne
    have hnext : (2 : ℚ) ^ 52 + 1 ≤ m := by exact_mod_cast Nat.lt_of_le_of_ne hlead (Ne.symm hne)
    have hreach := reachBelow_le m e
    linarith [h.low]
  by_cases hexponent : e = -1074
  · exact .inl ⟨by omega, hhigh, .inl (by omega)⟩
  have hreach : reachBelow m e = 1 / 4 := if_pos ⟨hpower, by omega⟩
  have hlow := h.low
  have hstep := mul_zpow_add_one w (-e)
  rw [hreach, hpower] at hlow
  push_cast at hlow
  have hmiddle : (2 : ℚ) ^ 53 - 1 / 2 ≤ w * 2 ^ (-e + 1) := by linarith
  exact .inr ⟨hpower, ⟨by omega, by linarith, .inr (by linarith)⟩, hmiddle⟩

/-- The bits of a fraction that is read as a number are those of the number. Below a power of two
the mantissa is rounded up and carries into the exponent. -/
private theorem ReadAs.bits_eq (hm : 0 < m) {num den : Nat} (hden : 0 < den) (hw : w = num / den) :
    scaledQuotient num den (mantissaShift num den) +
      (1074 - mantissaShift num den).toNat * 2 ^ 52 = sizeBits m e := by
  have hpos : 0 < w := h.pos hm
  have hplace : LastPlace w (mantissaShift num den) := by
    rw [hw] at hpos ⊢
    exact lastPlace_mantissaShift (Nat.pos_of_ne_zero fun hzero => by simp [hzero] at hpos) hden
  rcases h.lastPlace hcanonical with hown | ⟨rfl, hbelow, hmiddle⟩
  · have hreach := reachBelow_le m e
    have hround : scaledQuotient num den (-e) = m := by
      apply scaledQuotient_eq hden <;> rw [← hw]
      · linarith [h.low]
      · exact h.high
      · exact fun hodd => ⟨by linarith [(h.odd hodd).1], (h.odd hodd).2⟩
    rw [hplace.unique hpos hown, hround, sizeBits]
    congr 3
    omega
  · have hround : scaledQuotient num den (-e + 1) = 2 ^ 53 := by
      apply scaledQuotient_eq hden <;> rw [← hw]
      · exact_mod_cast hmiddle
      · have hbound := hbelow.lt_bound
        push_cast
        linarith
      · simp
    have hleast := hbelow.le_least
    rw [hplace.unique hpos hbelow, hround, sizeBits]
    omega

private theorem nearest?_of_readAs (hm : 0 < m) (hfinite : sizeBits m e < 2047 * 2 ^ 52)
    {num den : Nat} (hden : 0 < den) (hw : w = num / den) :
    nearest? negative num den =
      some (Float.ofBits (sizeBits m e + signBits negative).toUInt64) := by
  have hnum : num ≠ 0 := by
    have hpos := h.pos hm
    rintro rfl
    simp [hw] at hpos
  have hbits := h.bits_eq hcanonical hm hden hw
  simp only [nearest?, Nat.pow_eq, hnum, if_false, hbits, Nat.not_le.mpr hfinite]
  rfl

end Canonical

theorem nearest_of_readAs {x : Float} {negative : Bool} {m : Nat} {e : Int}
    (hx : parts x = .finite negative m e) (hm : 0 < m) {num den : Nat} (hden : 0 < den)
    (h : ReadAs m e (num / den)) : nearest negative num den = x := by
  have hcanonical : (Parts.finite negative m e).Canonical := hx ▸ canonical_parts x
  have hfinite := (toNat_toBits_of_finite hx).1
  rw [nearest, nearest?_of_readAs hcanonical h hm hfinite hden rfl, ofBits_of_finite hx]

theorem nearest_zero {x : Float} {negative : Bool} {e : Int} (hx : parts x = .finite negative 0 e) :
    nearest negative 0 1 = x := by
  obtain ⟨-, -, hexponent⟩ : (Parts.finite negative 0 e).Canonical := hx ▸ canonical_parts x
  have hbits : sizeBits 0 e = 0 := by
    rw [hexponent.resolve_right (by decide)]
    decide
  have hself := ofBits_of_finite hx
  rw [hbits, Nat.zero_add] at hself
  simp only [nearest, nearest?, Nat.pow_eq, if_true]
  exact hself

end SuiteTidy.Decimal
