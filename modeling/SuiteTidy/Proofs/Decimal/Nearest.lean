import SuiteTidy.Proofs.Decimal.Value

/-!
The floating-point numbers nearest to natural numbers. Main statement: a natural number above zero
and below `2 ^ 1023` has one, and that is not zero either.
-/

set_option autoImplicit false
set_option relaxedAutoImplicit false

namespace SuiteTidy.Decimal

open Float.Model Float.Model.UnpackedFloat

theorem roundDiv_mem (num den : Nat) :
    num / den ≤ roundDiv num den ∧ roundDiv num den ≤ num / den + 1 := by
  unfold roundDiv
  dsimp only
  split_ifs <;> omega

def scaled (n : Nat) (e : Int) : Nat := n * (powerOf 2 e).1 / (powerOf 2 e).2

private theorem scaled_log2 {n : Nat} (hn : n ≠ 0) (k : Nat) :
    2 ^ k ≤ scaled n (k - n.log2) ∧ scaled n (k - n.log2) < 2 ^ (k + 1) := by
  have hlow : 2 ^ n.log2 ≤ n := Nat.log2_self_le hn
  have hhigh : n < 2 ^ (n.log2 + 1) := Nat.lt_log2_self
  unfold scaled powerOf
  generalize n.log2 = l at *
  simp only [Nat.pow_eq]
  split_ifs with h
  · obtain ⟨d, rfl⟩ : ∃ d, k = l + d := Nat.exists_eq_add_of_le (by omega)
    have hd : (((l + d : Nat) : Int) - l).toNat = d := by omega
    have hpos : 0 < 2 ^ d := Nat.two_pow_pos d
    rw [hd, Nat.div_one, Nat.pow_add, Nat.add_right_comm, Nat.pow_add 2 (l + 1)]
    exact ⟨Nat.mul_le_mul_right _ hlow, Nat.mul_lt_mul_of_pos_right hhigh hpos⟩
  · obtain ⟨d, rfl⟩ : ∃ d, l = k + d := Nat.exists_eq_add_of_le (by omega)
    have hd : (-((k : Int) - ((k + d : Nat) : Int))).toNat = d := by omega
    have hpos : 0 < 2 ^ d := Nat.two_pow_pos d
    rw [Nat.pow_add] at hlow
    rw [Nat.add_right_comm, Nat.pow_add] at hhigh
    rw [hd, Nat.mul_one]
    exact ⟨(Nat.le_div_iff_mul_le hpos).mpr hlow, (Nat.div_lt_iff_lt_mul hpos).mpr hhigh⟩

private theorem mantissaShift_one {n : Nat} (hn : n ≠ 0) : mantissaShift n 1 = 52 - n.log2 := by
  have hfull : scaled n (53 - n.log2) ≥ 2 ^ 53 := (scaled_log2 hn 53).1
  have hone : Nat.log2 1 = 0 := by decide
  unfold scaled at hfull
  simp only [mantissaShift, hone, Nat.one_mul, Nat.pow_eq, Nat.cast_zero, Int.sub_zero, hfull,
    if_true]
  omega

/-- A number above zero has a normal nearest one: its exponent field is that of the leading bit, or
one more if rounding carries. -/
private theorem nearest?_one {n : Nat} (hn : n ≠ 0) (hbound : n.log2 < 1023) :
    ∃ bits, 2 ^ 52 ≤ bits ∧ bits < 2047 * 2 ^ 52 ∧
      nearest? false n 1 = some (Float.ofBits bits.toUInt64) := by
  obtain ⟨hlow, hhigh⟩ := scaled_log2 hn 52
  obtain ⟨hdown, hup⟩ := roundDiv_mem (n * (powerOf 2 (52 - n.log2)).1) (powerOf 2 (52 - n.log2)).2
  have hfield : (1074 - (52 - (n.log2 : Int))).toNat = 1022 + n.log2 := by omega
  have hmantissa : scaledQuotient n 1 (52 - n.log2) =
      roundDiv (n * (powerOf 2 (52 - n.log2)).1) (powerOf 2 (52 - n.log2)).2 := by
    simp [scaledQuotient]
  unfold scaled at hlow hhigh
  push_cast at hlow hhigh
  have hbits : nearest? false n 1 = some (Float.ofBits
      (scaledQuotient n 1 (52 - n.log2) + (1022 + n.log2) * 4503599627370496).toUInt64) := by
    simp [nearest?, hn, mantissaShift_one hn, hfield]
    omega
  exact ⟨_, by omega, by omega, hbits⟩

private theorem toNat_toBits_ofBits {bits : Nat} (h : bits < 2047 * 2 ^ 52) :
    (Float.ofBits bits.toUInt64).toBits.toNat = bits := by
  have hword : (bits.toUInt64.toBitVec : BitVec Format.binary64.numBits).toNat = bits :=
    Nat.mod_eq_of_lt (by omega)
  have hfield := toNat_unpackExponent bits.toUInt64.toBitVec
  have hnumber : ¬ @isNaNBits .binary64 bits.toUInt64.toBitVec := by
    simp only [isNaNBits, decide_eq_true_eq]
    rintro ⟨hfull, -⟩
    rw [hfull, hword] at hfield
    simp at hfield
    omega
  calc (Float.ofBits bits.toUInt64).toBits.toNat
      = (UnpackedFloat.pack .binary64
          (UnpackedFloat.unpack .binary64 bits.toUInt64.toBitVec)).toNat := rfl
    _ = bits := by rw [pack_unpack, if_neg hnumber, hword]

private theorem ofBits_beq_zero {bits : Nat} (hlow : 2 ^ 52 ≤ bits) (hhigh : bits < 2047 * 2 ^ 52) :
    (Float.ofBits bits.toUInt64 == 0.0) = false := by
  obtain ⟨negative, m, e, hm, hparts⟩ : ∃ negative m e, 0 < m ∧
      parts (Float.ofBits bits.toUInt64) = .finite negative m e := by
    unfold parts
    simp only [Nat.pow_eq, toNat_toBits_ofBits hhigh]
    rw [if_neg (by omega), if_neg (by omega)]
    exact ⟨_, _, _, by omega, rfl⟩
  have hpos := magnitude_pos hm e
  rw [Bool.eq_false_iff, ne_eq, beq_iff_value?, value?, value?, hparts, parts_zero]
  cases negative <;> simp [order?, Parts.value?, compare_map strictMono_ofRat, hpos.ne']

private theorem log2_lt_of_lt {n k : Nat} (hn : n ≠ 0) (h : n < 2 ^ k) : n.log2 < k :=
  (Nat.log2_lt hn).mpr h

theorem ofInt?_natCast {n : Nat} (hn : n ≠ 0) (hbound : n < 2 ^ 1023) :
    ∃ x, ofInt? n = some x ∧ (x == 0.0) = false := by
  obtain ⟨bits, hlow, hhigh, hbits⟩ := nearest?_one hn (log2_lt_of_lt hn hbound)
  have hsign : decide ((n : Int) < 0) = false := decide_eq_false (Int.natCast_nonneg n).not_gt
  refine ⟨Float.ofBits bits.toUInt64, ?_, ofBits_beq_zero hlow hhigh⟩
  rw [ofInt?, hsign, Int.natAbs_natCast, hbits]

end SuiteTidy.Decimal
