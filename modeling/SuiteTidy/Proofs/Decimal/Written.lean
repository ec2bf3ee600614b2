import SuiteTidy.Proofs.Decimal.Shortest

/-!
The written forms of floating-point numbers. Main statement: the text of a finite number is a
numeral of a real number, and the number is the floating-point value of the numeral's digits.
-/

set_option autoImplicit false
set_option relaxedAutoImplicit false

namespace SuiteTidy.Decimal

/-! Digits. -/

private theorem digitsValue_eq (ds : List Char) : digitsValue ds = Nat.ofDigitChars 10 ds 0 := by
  rw [digitsValue, Nat.ofDigitChars_eq_foldl]

theorem digitsValue_toDigits (n : Nat) : digitsValue (Nat.toDigits 10 n) = n := by
  rw [digitsValue_eq, Nat.ofDigitChars_ten_toDigits]

theorem head_toDigits {n : Nat} (h : n ≠ 0) : (Nat.toDigits 10 n).head? ≠ some '0' := by
  induction n using Nat.strong_induction_on with
  | _ n ih =>
    by_cases hsmall : n < 10
    · interval_cases n <;> first | exact absurd rfl h | decide
    · rw [Nat.toDigits_of_base_le (by decide) (by omega), List.head?_append_of_ne_nil _
        Nat.toDigits_ne_nil]
      exact ih (n / 10) (by omega) (by omega)

theorem digitsValue_append (as bs : List Char) :
    digitsValue (as ++ bs) = 10 ^ bs.length * digitsValue as + digitsValue bs := by
  simp only [digitsValue_eq, Nat.ofDigitChars_append]
  rw [Nat.ofDigitChars_eq_ofDigitChars_zero]

@[simp] theorem digitsValue_replicate_zero (k : Nat) : digitsValue (List.replicate k '0') = 0 := by
  rw [digitsValue_eq, Nat.ofDigitChars_replicate_zero, Nat.mul_zero]

private theorem dropTrailingZeros_append (ds : List Char) :
    (dropTrailingZeros ds).1 ++ List.replicate (dropTrailingZeros ds).2 '0' = ds := by
  have hsplit : (ds.reverse.dropWhile (· == '0')).reverse ++
      (ds.reverse.takeWhile (· == '0')).reverse = ds := by
    rw [← List.reverse_append, List.takeWhile_append_dropWhile, List.reverse_reverse]
  have hzeros : (ds.reverse.takeWhile (· == '0')).reverse =
      List.replicate (ds.reverse.takeWhile (· == '0')).reverse.length '0' := by
    refine List.eq_replicate_of_mem fun c hc => ?_
    simpa using List.mem_takeWhile_imp (List.mem_reverse.mp hc)
  have hcount : (dropTrailingZeros ds).2 = (ds.reverse.takeWhile (· == '0')).reverse.length := by
    have hlength := congrArg List.length hsplit
    rw [List.length_append] at hlength
    simp only [dropTrailingZeros]
    omega
  rw [hcount, ← hzeros]
  exact hsplit

/-! Numerals. -/

/-- The text of a number without its sign: digits, maybe a point with digits behind it, and maybe an
exponent. -/
structure Numeral where
  whole : List Char
  fraction : List Char
  exponent : Option Int

namespace Numeral

def chars (t : Numeral) : List Char :=
  t.whole ++ (if t.fraction = [] then [] else '.' :: t.fraction) ++
    (t.exponent.elim [] fun e => 'e' :: (exponentText e).toList)

def digits (t : Numeral) : Nat := digitsValue (t.whole ++ t.fraction)

def place (t : Numeral) : Int := t.exponent.getD 0 - t.fraction.length

/-- A numeral of a real number: no zero stands in front of other digits, and there is a point or an
exponent. -/
structure IsReal (t : Numeral) : Prop where
  whole_ne_nil : t.whole ≠ []
  whole_digits : ∀ c ∈ t.whole, c.isDigit = true
  whole_lead : t.whole = ['0'] ∨ t.whole.head? ≠ some '0'
  fraction_digits : ∀ c ∈ t.fraction, c.isDigit = true
  marked : t.fraction ≠ [] ∨ t.exponent ≠ none

def positional (ds : List Char) (whole : Int) : Numeral :=
  if whole ≤ 0 then ⟨['0'], List.replicate (-whole).toNat '0' ++ ds, none⟩
  else if ds.length ≤ whole.toNat then
    ⟨ds ++ List.replicate (whole.toNat - ds.length) '0', ['0'], none⟩
  else ⟨ds.take whole.toNat, ds.drop whole.toNat, none⟩

def scientific (ds : List Char) (e : Int) : Numeral := ⟨ds.take 1, ds.drop 1, some e⟩

end Numeral

section Digits

variable {ds : List Char} (hne : ds ≠ []) (hdigits : ∀ c ∈ ds, c.isDigit = true)
  (hlead : ds.head? ≠ some '0')

include hne in
private theorem pointAfter_eq (whole : Int) :
    (pointAfter ds whole).toList = (Numeral.positional ds whole).chars := by
  unfold pointAfter Numeral.positional
  dsimp only
  split_ifs with hsmall hlong
  · simp [Numeral.chars, hne]
  · simp [Numeral.chars]
  · simp [Numeral.chars, hlong]

include hne in
private theorem withExponent_eq (e : Int) :
    (withExponent ds e).toList = (Numeral.scientific ds e).chars := by
  obtain ⟨d, rest, rfl⟩ := List.exists_cons_of_ne_nil hne
  cases rest <;> simp [withExponent, Numeral.scientific, Numeral.chars]

include hne hdigits hlead

private theorem isReal_positional (whole : Int) : (Numeral.positional ds whole).IsReal := by
  unfold Numeral.positional
  obtain ⟨d, rest, rfl⟩ := List.exists_cons_of_ne_nil hne
  split_ifs with hsmall hlong
  · refine ⟨by simp, by simp [Char.isDigit], .inl rfl, ?_, .inl (by simp)⟩
    intro c hc
    rcases List.mem_append.mp hc with hc | hc
    · rw [List.eq_of_mem_replicate hc]
      rfl
    · exact hdigits c hc
  · refine ⟨by simp, ?_, .inr (by simpa using hlead), by simp [Char.isDigit], .inl (by simp)⟩
    intro c hc
    rcases List.mem_append.mp hc with hc | hc
    · exact hdigits c hc
    · rw [List.eq_of_mem_replicate hc]
      rfl
  · obtain ⟨n, hn⟩ : ∃ n, whole.toNat = n + 1 := ⟨whole.toNat - 1, by omega⟩
    refine ⟨by simp [hn], fun c hc => hdigits c (List.mem_of_mem_take hc), .inr ?_,
      fun c hc => hdigits c (List.mem_of_mem_drop hc), .inl ?_⟩
    · simpa [hn] using hlead
    · simpa [List.drop_eq_nil_iff] using hlong

private theorem isReal_scientific (e : Int) : (Numeral.scientific ds e).IsReal := by
  obtain ⟨d, rest, rfl⟩ := List.exists_cons_of_ne_nil hne
  rw [List.forall_mem_cons] at hdigits
  refine ⟨by simp [Numeral.scientific], by simpa [Numeral.scientific] using hdigits.1,
    .inr (by simpa [Numeral.scientific] using hlead), by simpa [Numeral.scientific] using hdigits.2,
    .inr (by simp [Numeral.scientific])⟩

end Digits

/-! The values of numerals. -/

theorem digitsValue_zeros_append (k : Nat) (ds : List Char) :
    digitsValue (List.replicate k '0' ++ ds) = digitsValue ds := by
  rw [digitsValue_append, digitsValue_replicate_zero, Nat.mul_zero, Nat.zero_add]

private theorem digitsValue_append_zeros (ds : List Char) (k : Nat) :
    digitsValue (ds ++ List.replicate k '0') = digitsValue ds * 10 ^ k := by
  rw [digitsValue_append, digitsValue_replicate_zero, List.length_replicate, Nat.add_zero,
    Nat.mul_comm]

private theorem value_positional (ds : List Char) (whole : Int) :
    ((Numeral.positional ds whole).digits * 10 ^ (Numeral.positional ds whole).place : ℚ) =
      digitsValue ds * 10 ^ (whole - ds.length) := by
  unfold Numeral.positional Numeral.digits Numeral.place
  split_ifs with hsmall hlong
  · have hvalue : digitsValue (['0'] ++ (List.replicate (-whole).toNat '0' ++ ds)) =
        digitsValue ds := by
      rw [← List.append_assoc]
      exact digitsValue_zeros_append ((-whole).toNat + 1) ds
    rw [hvalue, List.length_append, List.length_replicate, Option.getD_none]
    congr 2
    omega
  · have hvalue : digitsValue ((ds ++ List.replicate (whole.toNat - ds.length) '0') ++ ['0']) =
        digitsValue ds * 10 ^ (whole.toNat - ds.length + 1) := by
      rw [List.append_assoc, ← digitsValue_append_zeros, List.replicate_succ']
    have hpower : ((10 ^ (whole.toNat - ds.length + 1) : Nat) : ℚ) =
        10 ^ (((whole.toNat - ds.length + 1 : Nat) : Int)) := by
      rw [zpow_natCast]
      norm_cast
    rw [hvalue, Nat.cast_mul, hpower, mul_assoc, ← zpow_add₀ (by norm_num), Option.getD_none,
      List.length_singleton]
    congr 2
    omega
  · rw [List.take_append_drop, List.length_drop, Option.getD_none]
    congr 2
    omega

private theorem value_scientific {ds : List Char} (hne : ds ≠ []) (e : Int) :
    ((Numeral.scientific ds e).digits * 10 ^ (Numeral.scientific ds e).place : ℚ) =
      digitsValue ds * 10 ^ (e + 1 - ds.length) := by
  have hlength := List.length_pos_of_ne_nil hne
  unfold Numeral.scientific Numeral.digits Numeral.place
  rw [List.take_append_drop, List.length_drop, Option.getD_some]
  congr 2
  omega

private theorem place_positional (ds : List Char) (whole : Int) :
    min (-1) (whole - ds.length) ≤ (Numeral.positional ds whole).place := by
  unfold Numeral.positional Numeral.place
  split_ifs
  · simp
    omega
  · simp
  · simp
    omega

/-! The text of a number. -/

private theorem dropTrailingZeros_digitsOf {n : Nat} (hn : n ≠ 0) {ds : List Char} {zeros : Nat}
    (h : dropTrailingZeros (digitsOf n) = (ds, zeros)) :
    ds ≠ [] ∧ (∀ c ∈ ds, c.isDigit = true) ∧ ds.head? ≠ some '0' ∧
      digitsValue ds * 10 ^ zeros = n := by
  have hsplit : ds ++ List.replicate zeros '0' = Nat.toDigits 10 n := by
    have happend := dropTrailingZeros_append (digitsOf n)
    rw [h] at happend
    simpa [digitsOf, Nat.toString_eq_ofList_toDigits] using happend
  have hvalue : digitsValue ds * 10 ^ zeros = n := by
    rw [← digitsValue_append_zeros, hsplit, digitsValue_toDigits]
  have hne : ds ≠ [] := by
    rintro rfl
    exact hn (by simpa [digitsValue] using hvalue.symm)
  refine ⟨hne, fun c hc => ?_, ?_, hvalue⟩
  · have hmem : c ∈ Nat.toDigits 10 n := hsplit ▸ List.mem_append_left _ hc
    exact Nat.isDigit_of_mem_toDigits (by decide) (by decide) hmem
  · rw [← List.head?_append_of_ne_nil _ hne, hsplit]
    exact head_toDigits hn

private theorem exists_numeral_shortest {m : Nat} {e : Int} (hm : 0 < m) (hbound : m < 2 ^ 53)
    (hleast : -1074 ≤ e) (hlargest : e ≤ 972) :
    ∃ t : Numeral, t.IsReal ∧ (shortestMagnitude m e).toList = t.chars ∧ -1000 ≤ t.place ∧
      ReadAs m e (t.digits * 10 ^ t.place) := by
  obtain ⟨hread, hplace⟩ := readAs_shortest hm hbound hleast hlargest
  obtain ⟨digits, place, hshortest⟩ : ∃ digits place, shortest m e = (digits, place) := ⟨_, _, rfl⟩
  obtain ⟨ds, zeros, hds⟩ : ∃ ds zeros, dropTrailingZeros (digitsOf digits) = (ds, zeros) :=
    ⟨_, _, rfl⟩
  rw [hshortest] at hread hplace
  have hdigits : digits ≠ 0 := by
    have hpos := hread.pos hm
    rintro rfl
    simp at hpos
  obtain ⟨hne, hall, hlead, hvalue⟩ := dropTrailingZeros_digitsOf hdigits hds
  have hsame : (digitsValue ds * 10 ^ (place + zeros) : ℚ) = digits * 10 ^ place := by
    rw [← hvalue, add_comm, zpow_add₀ (by norm_num), zpow_natCast]
    push_cast
    ring
  -- The equation lemma of the definition is slow to make, so it is opened without one.
  delta shortestMagnitude
  simp only [hshortest, hds]
  split_ifs with hpositional
  · refine ⟨.positional ds (ds.length + place + zeros), isReal_positional hne hall hlead _,
      pointAfter_eq hne _, ?_, ?_⟩
    · have := place_positional ds (ds.length + place + zeros)
      omega
    · rw [value_positional,
        show (ds.length : Int) + place + zeros - ds.length = place + zeros by ring, hsame]
      exact hread
  · have hlength := List.length_pos_of_ne_nil hne
    refine ⟨.scientific ds (ds.length + place + zeros - 1), isReal_scientific hne hall hlead _,
      withExponent_eq hne _, ?_, ?_⟩
    · simp only [Numeral.place, Numeral.scientific, Option.getD_some, List.length_drop]
      omega
    · rw [value_scientific hne,
        show (ds.length : Int) + place + zeros - 1 + 1 - ds.length = place + zeros by ring, hsame]
      exact hread

theorem exists_numeral_text {x : Float} {negative : Bool} {m : Nat} {e : Int}
    (hx : parts x = .finite negative m e) :
    ∃ t : Numeral, t.IsReal ∧ (text x).toList = (if negative then ['-'] else []) ++ t.chars ∧
      ofDecimal negative t.digits t.place = x := by
  have hsign : (if negative then "-" else "").toList = if negative then ['-'] else [] := by
    cases negative <;> rfl
  simp only [text, hx, String.toList_append, hsign]
  by_cases hm : m = 0
  · subst hm
    refine ⟨⟨['0'], ['0'], none⟩,
      ⟨by simp, by simp [Char.isDigit], .inl rfl, by simp [Char.isDigit], .inl (by simp)⟩,
      by simp [Numeral.chars], ?_⟩
    have hdigits : Numeral.digits ⟨['0'], ['0'], none⟩ = 0 := by decide
    rw [hdigits, ofDecimal]
    dsimp only
    rw [if_pos (.inl rfl)]
    exact nearest_zero hx
  · obtain ⟨hbound, hleast, hlargest⟩ := exponent_mem hx
    have hpos := Nat.pos_of_ne_zero hm
    obtain ⟨t, hreal, hchars, hplace, hread⟩ := exists_numeral_shortest hpos hbound hleast hlargest
    rw [if_neg hm, hchars]
    exact ⟨t, hreal, rfl, ofDecimal_of_readAs hx hpos hplace hread⟩

end SuiteTidy.Decimal
