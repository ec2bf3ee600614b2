import SuiteTidy.Decimal.Binary
import Mathlib

/-!
The values of floating-point numbers. A finite one stands for a fraction, and the infinities lie
below and above all fractions. Main statement: floating-point numbers are ordered by their values.
-/

set_option autoImplicit false
set_option relaxedAutoImplicit false

namespace SuiteTidy.Decimal

open Float.Model Float.Model.UnpackedFloat

abbrev Extended : Type := WithBot (WithTop ℚ)

def Extended.ofRat (q : ℚ) : Extended := ((q : WithTop ℚ) : WithBot (WithTop ℚ))

def magnitude (mantissa : Nat) (exponent : Int) : ℚ := mantissa * 2 ^ exponent

def Parts.value? : Parts → Option Extended
  | nan => none
  | infinite negative => some (if negative then ⊥ else ⊤)
  | finite negative mantissa exponent =>
    some (.ofRat (if negative then -magnitude mantissa exponent else magnitude mantissa exponent))

/-! Fractions. -/

theorem powerOf_eq {base : Nat} (hbase : 0 < base) (e : Int) :
    0 < (powerOf base e).2 ∧ ((powerOf base e).1 : ℚ) = base ^ e * (powerOf base e).2 := by
  have hne : (base : ℚ) ≠ 0 := by exact_mod_cast hbase.ne'
  unfold powerOf
  split
  case isTrue h =>
    have hpower : (base : ℚ) ^ e = base ^ e.toNat := by
      rw [← zpow_natCast, Int.toNat_of_nonneg h]
    simp [hpower]
  case isFalse h =>
    have hpower : (base : ℚ) ^ e = ((base : ℚ) ^ (-e).toNat)⁻¹ := by
      rw [← zpow_natCast, Int.toNat_of_nonneg (by omega), zpow_neg, inv_inv]
    simp [hpower, hbase, hne]

theorem fractionOf_eq (m : Nat) (e : Int) :
    0 < (fractionOf m e).2 ∧ ((fractionOf m e).1 : ℚ) = magnitude m e * (fractionOf m e).2 := by
  obtain ⟨hpos, hpower⟩ := powerOf_eq Nat.two_pos e
  refine ⟨hpos, ?_⟩
  simp [fractionOf, magnitude, hpower, mul_assoc]

/-! The fields of a floating-point number. -/

def signOf (negative : Bool) : Sign := if negative then .negative else .positive

def Parts.unpacked : Parts → UnpackedFloat
  | nan => .notANumber
  | infinite negative => .infinity (signOf negative)
  | finite negative mantissa exponent =>
    if h : 0 < mantissa then .finite (signOf negative) mantissa exponent h
    else .zero (signOf negative)

private theorem toNat_unpackMantissa (b : BitVec Format.binary64.numBits) :
    (unpackMantissa b).toNat = b.toNat % 2 ^ 52 := by
  simp [unpackMantissa, BitVec.extractLsb_toNat]

theorem toNat_unpackExponent (b : BitVec Format.binary64.numBits) :
    (unpackExponent b).toNat = b.toNat / 2 ^ 52 % 2 ^ 11 := by
  simp [unpackExponent, BitVec.extractLsb_toNat, Nat.shiftRight_eq_div_pow]

private theorem toNat_unpackSign (b : BitVec Format.binary64.numBits) :
    (unpackSign b).toNat = b.toNat / 2 ^ 63 % 2 := by
  simp [unpackSign, BitVec.extractLsb_toNat, Nat.shiftRight_eq_div_pow]

private theorem sign_ofBitVec (b : BitVec Format.binary64.numBits) :
    Sign.ofBitVec (unpackSign b) = signOf (decide (b.toNat / 2 ^ 63 % 2 = 1)) := by
  have hvalue := toNat_unpackSign b
  generalize unpackSign b = v at *
  rcases Nat.mod_two_eq_zero_or_one (b.toNat / 2 ^ 63) with h | h
  all_goals
    rw [h] at hvalue
    have hv : v = BitVec.ofNat 1 v.toNat := by simp
    rw [hv, hvalue, h]
    rfl

private theorem toNat_implicitBit (m : BitVec Format.binary64.mantissaBitsWithoutImplicit) :
    (1#1 ++ m).toNat = 2 ^ 52 + m.toNat := by
  rw [BitVec.toNat_append, ← Nat.shiftLeft_add_eq_or_of_lt m.isLt]
  rfl

private theorem unpack_eq_unpacked (x : Float) : x.toModel.unpack = (parts x).unpacked := by
  -- Both sides read the same three fields; only their tests differ, on bit vectors and on numbers.
  have hword : x.toBits.toNat = x.toModel.toBits.toBitVec.toNat := rfl
  unfold Float.Model.unpack parts
  rw [hword]
  generalize x.toModel.toBits.toBitVec = b
  unfold UnpackedFloat.unpack
  simp only [Nat.pow_eq, ← toNat_unpackMantissa, ← toNat_unpackExponent, sign_ofBitVec]
  generalize decide (b.toNat / 2 ^ 63 % 2 = 1) = negative
  have hbias : ((Format.binary64.exponentBias : Int) + (52 : Nat)) = 1075 := by decide
  have hfull : @unpackExponent .binary64 b = -1#11 ↔ (@unpackExponent .binary64 b).toNat = 2047 :=
    by rw [← BitVec.toNat_inj]; rfl
  have hleast : @unpackExponent .binary64 b = 0#11 ↔ (@unpackExponent .binary64 b).toNat = 0 := by
    rw [← BitVec.toNat_inj]; rfl
  have hzero : @unpackMantissa .binary64 b = 0#52 ↔ (@unpackMantissa .binary64 b).toNat = 0 := by
    rw [← BitVec.toNat_inj]; rfl
  simp only [hfull, hleast, hzero, hbias]
  split_ifs with hf hm hl hm
  · simp [Parts.unpacked]
  · simp [Parts.unpacked]
  · simp [Parts.unpacked, hm]
  · simp [Parts.unpacked, hl, Nat.pos_of_ne_zero hm]
  · simpa [Parts.unpacked] using toNat_implicitBit (@unpackMantissa .binary64 b)

/-- A floating-point number is determined by its parts; in particular there is one NaN. -/
theorem eq_of_parts_eq {x y : Float} (h : parts x = parts y) : x = y := by
  have hself : ∀ z : Float, z = .ofModel (Float.Model.pack (parts z).unpacked) := by
    intro z
    rw [← unpack_eq_unpacked]
    exact (Float.ofBits_toBits z).symm
  rw [hself x, hself y, h]

/-- Parts as a floating-point number has them. Only the smallest exponent goes with a mantissa
that lacks its leading bit, so each size has one form. -/
def Parts.Canonical : Parts → Prop
  | finite _ mantissa exponent =>
    mantissa < 2 ^ 53 ∧ -1074 ≤ exponent ∧ (exponent = -1074 ∨ 2 ^ 52 ≤ mantissa)
  | _ => True

theorem canonical_parts (x : Float) : (parts x).Canonical := by
  unfold parts
  generalize x.toBits.toNat = word
  have hfraction : word % 2 ^ 52 < 2 ^ 52 := Nat.mod_lt _ (by decide)
  simp only [Nat.pow_eq]
  split_ifs with hf hz hl
  · trivial
  · trivial
  · exact ⟨by omega, le_rfl, .inl rfl⟩
  · exact ⟨by omega, by omega, .inr (by omega)⟩

/-! Comparing finite numbers. -/

theorem compare_map {α β : Type} [LinearOrder α] [LinearOrder β] {f : α → β} (hf : StrictMono f)
    (x y : α) : compare (f x) (f y) = compare x y := by
  simpa only [cmp_eq_compare] using hf.cmp_map_eq x y

theorem strictMono_ofRat : StrictMono Extended.ofRat :=
  fun _ _ h => WithBot.coe_lt_coe.mpr (WithTop.coe_lt_coe.mpr h)

@[simp]
theorem magnitude_zero (e : Int) : magnitude 0 e = 0 := by
  simp [magnitude]

theorem magnitude_pos {m : Nat} (h : 0 < m) (e : Int) : 0 < magnitude m e := by
  unfold magnitude
  positivity

private theorem magnitude_lt_of_exponent_lt {m₁ m₂ : Nat} {e₁ e₂ : Int} {n₁ n₂ : Bool}
    (h₁ : (Parts.finite n₁ m₁ e₁).Canonical) (h₂ : (Parts.finite n₂ m₂ e₂).Canonical)
    (h : e₁ < e₂) : magnitude m₁ e₁ < magnitude m₂ e₂ := by
  obtain ⟨hm₁, he₁, -⟩ := h₁
  obtain ⟨-, -, hm₂⟩ := h₂
  have hlead : 2 ^ 52 ≤ m₂ := hm₂.resolve_left (by omega)
  calc magnitude m₁ e₁ < 2 ^ 53 * 2 ^ e₁ := by
        unfold magnitude
        gcongr
        exact_mod_cast hm₁
    _ = 2 ^ 52 * 2 ^ (e₁ + 1) := by
        rw [zpow_add_one₀ (by norm_num)]
        ring
    _ ≤ 2 ^ 52 * 2 ^ e₂ := by
        gcongr
        · norm_num
        · omega
    _ ≤ magnitude m₂ e₂ := by
        unfold magnitude
        gcongr
        exact_mod_cast hlead

private theorem strictMono_magnitude (e : Int) : StrictMono (magnitude · e) := by
  intro m₁ m₂ h
  have hpower : (0 : ℚ) < 2 ^ e := by positivity
  exact mul_lt_mul_of_pos_right (Nat.cast_lt.mpr h) hpower

private theorem compare_magnitude {m₁ m₂ : Nat} {e₁ e₂ : Int} {n₁ n₂ : Bool}
    (h₁ : (Parts.finite n₁ m₁ e₁).Canonical) (h₂ : (Parts.finite n₂ m₂ e₂).Canonical) :
    compare (magnitude m₁ e₁) (magnitude m₂ e₂) = (compare e₁ e₂).then (compare m₁ m₂) := by
  rcases lt_trichotomy e₁ e₂ with h | rfl | h
  · rw [compare_lt_iff_lt.mpr h, compare_lt_iff_lt.mpr (magnitude_lt_of_exponent_lt h₁ h₂ h)]
    rfl
  · rw [compare_eq_iff_eq.mpr rfl, Ordering.eq_then]
    exact compare_map (strictMono_magnitude e₁) m₁ m₂
  · rw [compare_gt_iff_gt.mpr h, compare_gt_iff_gt.mpr (magnitude_lt_of_exponent_lt h₂ h₁ h)]
    rfl

private theorem compare_neg (a b : ℚ) : compare (-a) (-b) = (compare a b).swap := by
  rw [← Std.OrientedOrd.eq_swap]
  rcases lt_trichotomy a b with h | rfl | h
  · rw [compare_gt_iff_gt.mpr h, compare_gt_iff_gt.mpr (neg_lt_neg h)]
  · rw [compare_eq_iff_eq.mpr rfl, compare_eq_iff_eq.mpr rfl]
  · rw [compare_lt_iff_lt.mpr h, compare_lt_iff_lt.mpr (neg_lt_neg h)]

@[simp]
theorem bot_lt_ofRat (q : ℚ) : ⊥ < Extended.ofRat q := WithBot.bot_lt_coe _

@[simp]
theorem ofRat_lt_top (q : ℚ) : Extended.ofRat q < ⊤ := WithBot.coe_lt_coe.mpr (WithTop.coe_lt_top q)

def order? (a b : Option Extended) : Option Ordering := do return compare (← a) (← b)

private theorem order?_finite {n₁ n₂ : Bool} {m₁ m₂ : Nat} {e₁ e₂ : Int}
    (h₁ : (Parts.finite n₁ m₁ e₁).Canonical) (h₂ : (Parts.finite n₂ m₂ e₂).Canonical) :
    order? (Parts.finite n₁ m₁ e₁).value? (Parts.finite n₂ m₂ e₂).value? =
      (Parts.finite n₁ m₁ e₁).unpacked.compare (Parts.finite n₂ m₂ e₂).unpacked := by
  simp only [order?, Parts.value?, Option.pure_def, Option.bind_eq_bind, Option.bind_some,
    compare_map strictMono_ofRat]
  -- A zero is compared by the sign of the other number, so zeros are split off first.
  rcases Nat.eq_zero_or_pos m₁ with rfl | hm₁ <;> rcases Nat.eq_zero_or_pos m₂ with rfl | hm₂
  · simp [Parts.unpacked, UnpackedFloat.compare]
  · have hpos := magnitude_pos hm₂ e₂
    cases n₂ <;> simp [Parts.unpacked, hm₂, signOf, UnpackedFloat.compare, compare_lt_iff_lt,
      compare_gt_iff_gt, hpos]
  · have hpos := magnitude_pos hm₁ e₁
    cases n₁ <;> simp [Parts.unpacked, hm₁, signOf, UnpackedFloat.compare, compare_lt_iff_lt,
      compare_gt_iff_gt, hpos]
  · have hpos₁ := magnitude_pos hm₁ e₁
    have hpos₂ := magnitude_pos hm₂ e₂
    have hbelow : -magnitude m₁ e₁ < magnitude m₂ e₂ := (neg_lt_zero.mpr hpos₁).trans hpos₂
    have habove : -magnitude m₂ e₂ < magnitude m₁ e₁ := (neg_lt_zero.mpr hpos₂).trans hpos₁
    cases n₁ <;> cases n₂ <;> simp [Parts.unpacked, hm₁, hm₂, signOf, UnpackedFloat.compare,
      compare_neg, compare_magnitude h₁ h₂, compare_lt_iff_lt, compare_gt_iff_gt, hbelow, habove]

private theorem order?_value? {p q : Parts} (hp : p.Canonical) (hq : q.Canonical) :
    order? p.value? q.value? = p.unpacked.compare q.unpacked := by
  cases p with
  | nan => rfl
  | infinite n =>
    cases q with
    | nan => cases n <;> rfl
    | infinite n' => cases n <;> cases n' <;> decide
    | finite n' m e =>
      by_cases hm : 0 < m <;> cases n <;> simp [hm, order?, Parts.value?, Parts.unpacked, signOf,
        UnpackedFloat.compare, compare_lt_iff_lt, compare_gt_iff_gt]
  | finite n m e =>
    cases q with
    | nan =>
      by_cases hm : 0 < m <;> simp [hm, order?, Parts.value?, Parts.unpacked,
        UnpackedFloat.compare]
    | infinite n' =>
      by_cases hm : 0 < m <;> cases n' <;> simp [hm, order?, Parts.value?, Parts.unpacked, signOf,
        UnpackedFloat.compare, compare_lt_iff_lt, compare_gt_iff_gt]
    | finite n' m' e' => exact order?_finite hp hq

/-! Floating-point numbers by their values. -/

def value? (x : Float) : Option Extended := (parts x).value?

theorem parts_zero : parts 0.0 = .finite false 0 (-1074) := by decide

private theorem compare_toModel (x y : Float) :
    x.toModel.compare y.toModel = order? (value? x) (value? y) := by
  rw [value?, value?, order?_value? (canonical_parts x) (canonical_parts y),
    ← unpack_eq_unpacked, ← unpack_eq_unpacked]
  rfl

theorem lt_iff_value? (x y : Float) : x < y ↔ order? (value? x) (value? y) = some .lt := by
  change decide (x.toModel < y.toModel) = true ↔ _
  rw [decide_eq_true_iff]
  change (x.toModel.compare y.toModel == some .lt) = true ↔ _
  rw [beq_iff_eq, compare_toModel]

theorem beq_iff_value? (x y : Float) : x == y ↔ order? (value? x) (value? y) = some .eq := by
  change (x.toModel.compare y.toModel == some .eq) = true ↔ _
  rw [beq_iff_eq, compare_toModel]

theorem isNaN_iff_value? (x : Float) : x.isNaN ↔ value? x = none := by
  have hunpack : x.isNaN = (parts x).unpacked.isNaN := by rw [← unpack_eq_unpacked]; rfl
  rw [hunpack, value?]
  cases parts x with
  | nan => simp [Parts.unpacked, Parts.value?, UnpackedFloat.isNaN]
  | infinite n => simp [Parts.unpacked, Parts.value?, UnpackedFloat.isNaN]
  | finite n m e =>
    by_cases hm : 0 < m <;> simp [hm, Parts.unpacked, Parts.value?, UnpackedFloat.isNaN]

end SuiteTidy.Decimal
