import SuiteTidy.Proofs.Json.Lexeme

/-!
Floating-point numbers in a document. Main statement: every floating-point number, also an infinity,
NaN and a negative zero, is read back from its text.
-/

set_option autoImplicit false
set_option relaxedAutoImplicit false

namespace SuiteTidy.Json

open SuiteTidy.Text Decimal

/-! Numerals. -/

private theorem isDigit_of_mem_toDigits {n : Nat} {c : Char} (h : c ∈ Nat.toDigits 10 n) :
    c.isDigit = true := Nat.isDigit_of_mem_toDigits (by decide) (by decide) h

private theorem exponentDigits?_exponentText (e : Int) {rest : List Char}
    (hrest : EndsDigits rest) :
    exponentDigits? ('e' :: ((exponentText e).toList ++ rest)) = some (e, rest) := by
  obtain ⟨k, hk⟩ : ∃ k, (if (digitsOf e.natAbs).length < 2 then '0' :: digitsOf e.natAbs
      else digitsOf e.natAbs) = List.replicate k '0' ++ Nat.toDigits 10 e.natAbs := by
    have hdigits : digitsOf e.natAbs = Nat.toDigits 10 e.natAbs := by
      simp [digitsOf]
    rw [hdigits]
    split_ifs
    · exact ⟨1, rfl⟩
    · exact ⟨0, rfl⟩
  have htext : (exponentText e).toList = (if e < 0 then '-' else '+') ::
      (List.replicate k '0' ++ Nat.toDigits 10 e.natAbs) := by
    simp only [exponentText, hk]
    split_ifs <;> simp
  have hall : ∀ c ∈ List.replicate k '0' ++ Nat.toDigits 10 e.natAbs, c.isDigit = true := by
    intro c hc
    rcases List.mem_append.mp hc with hc | hc
    · rw [List.eq_of_mem_replicate hc]
      rfl
    · exact isDigit_of_mem_toDigits hc
  have hne : (List.replicate k '0' ++ Nat.toDigits 10 e.natAbs).isEmpty = false := by
    simp [Nat.toDigits_ne_nil]
  have hvalue : digitsValue (List.replicate k '0' ++ Nat.toDigits 10 e.natAbs) = e.natAbs := by
    rw [digitsValue_zeros_append, digitsValue_toDigits]
  have hspan := spanDigits_append hall hrest
  rw [htext, List.cons_append]
  split_ifs with hsign
  · simp only [exponentDigits?, true_or, if_true, hspan, hne, Bool.false_eq_true, if_false, hvalue]
    congr 2
    omega
  · simp only [exponentDigits?, true_or, if_true, hspan, hne, Bool.false_eq_true, if_false, hvalue]
    congr 2
    omega

private def tailOf (exponent : Option Int) (rest : List Char) : List Char :=
  (exponent.elim [] fun e => 'e' :: (exponentText e).toList) ++ rest

section Tail

variable {rest : List Char} (hrest : Ends rest) (exponent : Option Int)

include hrest

private theorem endsDigits_tailOf : EndsDigits (tailOf exponent rest) := by
  cases exponent with
  | none => exact hrest.endsDigits
  | some e => simp [tailOf, EndsDigits, Char.isDigit]

private theorem fractionDigits?_tailOf : fractionDigits? (tailOf exponent rest) = none := by
  cases exponent with
  | none =>
    rw [fractionDigits?.eq_def]
    split
    · rename_i hpoint
      have hhead : rest.head? = some '.' := congrArg List.head? hpoint
      exact absurd rfl (hrest '.' hhead).2.1
    · rfl
  | some e => rfl

private theorem exponentDigits?_tailOf :
    exponentDigits? (tailOf exponent rest) = exponent.map fun e => (e, rest) := by
  cases exponent with
  | none => exact hrest.exponentDigits?_eq
  | some e => exact exponentDigits?_exponentText e hrest.endsDigits

end Tail

private theorem magnitude_numeral (left : Nat) (negative : Bool) {t : Numeral} (ht : t.IsReal)
    {rest : List Char} (hrest : Ends rest) :
    magnitude left negative (t.chars ++ rest) =
      .ok (.real (ofDecimal negative t.digits t.place), rest) := by
  obtain ⟨whole, fraction, exponent⟩ := t
  obtain ⟨hne, hwhole, hlead, hfraction, hmarked⟩ := ht
  have hends := endsDigits_tailOf hrest exponent
  have htail := exponentDigits?_tailOf hrest exponent
  by_cases hempty : fraction = []
  · subst hempty
    obtain ⟨e, rfl⟩ := Option.ne_none_iff_exists'.mp (hmarked.resolve_left (by simp))
    have hchars : Numeral.chars ⟨whole, [], some e⟩ ++ rest = whole ++ tailOf (some e) rest := by
      simp [Numeral.chars, tailOf]
    simp only [hchars, magnitude, wholeDigits?_append hne hwhole hlead hends,
      fractionDigits?_tailOf hrest, htail, Option.map_some]
    rfl
  · have hchars : Numeral.chars ⟨whole, fraction, exponent⟩ ++ rest =
        whole ++ '.' :: (fraction ++ tailOf exponent rest) := by
      simp [Numeral.chars, tailOf, hempty]
    have hpoint : EndsDigits ('.' :: (fraction ++ tailOf exponent rest)) := by simp [EndsDigits]
    have hspan : fractionDigits? ('.' :: (fraction ++ tailOf exponent rest)) =
        some (fraction, tailOf exponent rest) := by
      rw [fractionDigits?, takeWhile_digits hfraction hends, spanDigits_append hfraction hends]
      simp [hempty]
    simp only [hchars, magnitude, wholeDigits?_append hne hwhole hlead hpoint, hspan, htail]
    cases exponent with
    | none => simp [Numeral.digits, Numeral.place, tailOf]
    | some e => rfl

private theorem exists_chars_eq {t : Numeral} (ht : t.IsReal) :
    ∃ d cs, t.chars = d :: cs ∧ d.isDigit = true := by
  obtain ⟨d, more, hwhole⟩ := List.exists_cons_of_ne_nil ht.whole_ne_nil
  exact ⟨d, _, by rw [Numeral.chars, hwhole]; rfl, ht.whole_digits d (by simp [hwhole])⟩

private theorem return_not_mem_chars {t : Numeral} (ht : t.IsReal) : '\r' ∉ t.chars := by
  have hdigit : ∀ {ds : List Char}, (∀ c ∈ ds, c.isDigit = true) → '\r' ∉ ds := by
    intro ds hds hmem
    exact absurd (hds _ hmem) (by decide)
  have hexponent : ∀ e, '\r' ∉ (exponentText e).toList := by
    intro e
    have hdigits : '\r' ∉ digitsOf e.natAbs :=
      hdigit fun c hc => isDigit_of_mem_toDigits (n := e.natAbs) (by simpa [digitsOf] using hc)
    rw [exponentText]
    split_ifs <;> simp [hdigits]
  have hpoint : '\r' ∉ if t.fraction = [] then [] else '.' :: t.fraction := by
    split_ifs
    · simp
    · simp [hdigit ht.fraction_digits]
  have htail : '\r' ∉ t.exponent.elim [] fun e => 'e' :: (exponentText e).toList := by
    cases t.exponent with
    | none => simp
    | some e => simp [hexponent]
  rw [Numeral.chars, List.mem_append, List.mem_append, not_or, not_or]
  exact ⟨⟨hdigit ht.whole_digits, hpoint⟩, htail⟩

/-! Floating-point numbers. -/

private theorem eq_infinity {x : Float} {negative : Bool} (h : parts x = .infinite negative) :
    x = if negative then -(1.0 / 0.0) else 1.0 / 0.0 := by
  apply eq_of_parts_eq
  rw [h]
  cases negative <;> decide

private theorem eq_nan {x : Float} (h : parts x = .nan) : x = 0.0 / 0.0 := by
  apply eq_of_parts_eq
  rw [h]
  decide

theorem exists_realText_eq (x : Float) :
    ∃ c cs, (realText x).toList = c :: cs ∧ (c.isDigit = true ∨ c ∈ ['-', 'N', 'I']) := by
  cases hx : parts x with
  | nan => exact ⟨'N', ['a', 'N'], by simp [realText, hx], .inr (by decide)⟩
  | infinite negative =>
    simp only [realText, hx]
    cases negative
    · exact ⟨'I', _, rfl, .inr (by decide)⟩
    · exact ⟨'-', _, rfl, .inr (by decide)⟩
  | finite negative m e =>
    obtain ⟨t, ht, htext, -⟩ := exists_numeral_text hx
    obtain ⟨d, cs, hchars, hd⟩ := exists_chars_eq ht
    simp only [realText, hx, htext, hchars]
    cases negative
    · exact ⟨d, cs, rfl, .inl hd⟩
    · exact ⟨'-', _, rfl, .inr (by decide)⟩

theorem return_not_mem_realText (x : Float) : '\r' ∉ (realText x).toList := by
  cases hx : parts x with
  | nan => simp [realText, hx]
  | infinite negative => cases negative <;> simp [realText, hx]
  | finite negative m e =>
    obtain ⟨t, ht, htext, -⟩ := exists_numeral_text hx
    have hchars := return_not_mem_chars ht
    cases negative <;> simp [realText, hx, htext, hchars]

theorem value_realText (x : Float) (fuel : Nat) {rest : List Char} (hrest : Ends rest) :
    value (fuel + 1) ((realText x).toList ++ rest) = .ok (.real x, rest) := by
  cases hx : parts x with
  | nan =>
    simp only [realText, hx]
    rw [eq_nan hx]
    simp [value, word?, afterStart?]
  | infinite negative =>
    simp only [realText, hx]
    rw [eq_infinity hx]
    cases negative <;> simp [value, word?, afterStart?]
  | finite negative m e =>
    obtain ⟨t, ht, htext, hvalue⟩ := exists_numeral_text hx
    obtain ⟨d, cs, hchars, hd⟩ := exists_chars_eq ht
    have hmagnitude := fun left => magnitude_numeral left negative ht hrest
    have hletter : d ≠ 'I' ∧ d ≠ '-' := by
      constructor <;> rintro rfl <;> simp [Char.isDigit] at hd
    rw [hvalue, hchars, List.cons_append] at hmagnitude
    simp only [realText, hx, htext, hchars]
    cases negative with
    | false =>
      rw [if_neg Bool.false_ne_true, List.nil_append, List.cons_append, value_eq_number (.inl hd),
        number, hmagnitude]
      intro more heq
      exact hletter.2 (List.cons.inj heq).1
    | true =>
      rw [if_pos rfl, List.cons_append, List.nil_append, List.cons_append, List.cons_append,
        value_eq_number (.inr ⟨rfl, by simp [hletter.1]⟩), number, hmagnitude]

end SuiteTidy.Json
