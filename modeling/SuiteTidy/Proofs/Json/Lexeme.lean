import SuiteTidy.Json.Printer
import SuiteTidy.Json.Reader
import SuiteTidy.Proofs.Decimal.Written

/-!
The smallest parts of a document: strings and integers. Each is read back from its written form,
whatever follows it, as long as what follows does not go on with a number.
-/

set_option autoImplicit false
set_option relaxedAutoImplicit false

namespace SuiteTidy.Json

open SuiteTidy.Text

/-! Escapes. -/

private theorem hexDigit?_digitChar {d : Nat} (h : d < 16) :
    hexDigit? (Nat.digitChar d) = some d := by
  interval_cases d <;> rfl

private theorem hexFour?_hexDigits {n : Nat} (h : n < 0x10000) (rest : List Char) :
    hexFour? (hexDigits n 4 ++ rest) = some (n, rest) := by
  simp only [hexDigits, List.nil_append, List.cons_append, hexFour?,
    hexDigit?_digitChar (Nat.mod_lt _ (show 0 < 16 by decide)), Option.pure_def,
    Option.bind_eq_bind, Option.bind_some, Option.some.injEq, Prod.mk.injEq, and_true]
  omega

private theorem unicodeUnit_hexDigits {n : Nat} (h : n < 0x10000) {rest : List Char}
    (hrest : rest ≠ []) : unicodeUnit (hexDigits n 4 ++ rest) = .ok (n, rest) := by
  have hlength : ¬ (hexDigits n 4 ++ rest).length ≤ 4 := by
    have hpos := List.length_pos_of_ne_nil hrest
    simp only [hexDigits, List.length_append, List.length_cons, List.length_nil]
    omega
  rw [unicodeUnit, if_neg hlength, hexFour?_hexDigits h]

private theorem not_half (c : Char) : (isHighHalf c.toNat || isLowHalf c.toNat) = false := by
  have hvalid : c.toNat < 0xD800 ∨ 0xDFFF < c.toNat ∧ c.toNat < 0x110000 := c.valid
  simp only [isHighHalf, isLowHalf, Bool.or_eq_false_iff, decide_eq_false_iff_not]
  omega

private theorem unicodeChar_unit {c : Char} (h : c.toNat < 0x10000) {rest : List Char}
    (hrest : rest ≠ []) : unicodeChar (hexDigits c.toNat 4 ++ rest) = .ok (c, rest) := by
  have hhigh : isHighHalf c.toNat = false := (Bool.or_eq_false_iff.mp (not_half c)).1
  have hchar : unitChar c.toNat = c := by simp [unitChar, not_half]
  simp [unicodeChar, unicodeUnit_hexDigits h hrest, hhigh, hchar, bind, Except.bind, pure,
    Except.pure]

private theorem unicodeChar_pair {c : Char} {high low : Nat} (h : 0x10000 ≤ c.toNat)
    (hhigh : high = 0xD800 + (c.toNat - 0x10000) / 0x400)
    (hlow : low = 0xDC00 + (c.toNat - 0x10000) % 0x400) {rest : List Char} (hrest : rest ≠ []) :
    unicodeChar (hexDigits high 4 ++ (unitEscape low ++ rest)) = .ok (c, rest) := by
  have hvalid : c.toNat < 0xD800 ∨ 0xDFFF < c.toNat ∧ c.toNat < 0x110000 := c.valid
  have hfirst : unicodeUnit (hexDigits high 4 ++ (unitEscape low ++ rest)) =
      .ok (high, unitEscape low ++ rest) := unicodeUnit_hexDigits (by omega) (by simp [unitEscape])
  have hsecond : unicodeUnit (hexDigits low 4 ++ rest) = .ok (low, rest) :=
    unicodeUnit_hexDigits (by omega) hrest
  have hpair : isHighHalf high = true ∧ isLowHalf low = true := by
    simp only [isHighHalf, isLowHalf, decide_eq_true_eq]
    omega
  have hlength : (unitEscape low ++ rest).length > 6 := by
    have hpos := List.length_pos_of_ne_nil hrest
    simp only [unitEscape, hexDigits, List.length_append, List.length_cons, List.length_nil]
    omega
  have hcode : 0x10000 + (high - 0xD800) * 0x400 + (low - 0xDC00) = c.toNat := by omega
  simp only [unicodeChar, bind, Except.bind, hfirst, hpair.1, hlength, decide_true, Bool.and_true,
    if_true]
  simp only [unitEscape, List.cons_append, hsecond, hpair.2, if_true, hcode, Char.ofNat_toNat, pure,
    Except.pure]

/-! Strings. -/

/-- How a character is written: as a short escape, as the escape of one code unit or of two, or as
it is. -/
private theorem stringChar_cases (asciiOnly : Bool) (c : Char) :
    (∃ e, stringChar asciiOnly c = ['\\', e] ∧ simpleEscape? e = some c ∧ e ≠ '\r') ∨
      (c.toNat < 0x10000 ∧ stringChar asciiOnly c = unitEscape c.toNat) ∨
      (0x10000 ≤ c.toNat ∧ stringChar asciiOnly c =
        unitEscape (0xD800 + (c.toNat - 0x10000) / 0x400) ++
          unitEscape (0xDC00 + (c.toNat - 0x10000) % 0x400)) ∨
      (stringChar asciiOnly c = [c] ∧ c ≠ '"' ∧ c ≠ '\\' ∧ c ≠ '\r' ∧ ¬ c.toNat < 32) := by
  by_cases hshort : c ∈ ['"', '\\', '\n', '\r', '\t', '\x08', '\x0c']
  · left
    simp only [List.mem_cons, List.not_mem_nil, or_false] at hshort
    rcases hshort with rfl | rfl | rfl | rfl | rfl | rfl | rfl <;>
      exact ⟨_, rfl, rfl, by decide⟩
  · right
    simp only [List.mem_cons, List.not_mem_nil, or_false, not_or] at hshort
    obtain ⟨hquote, hslash, hfeed, hreturn, htab, hback, hform⟩ := hshort
    rw [stringChar, if_neg hquote, if_neg hslash, if_neg hfeed, if_neg hreturn, if_neg htab,
      if_neg hback, if_neg hform]
    by_cases hcontrol : c.toNat < 32
    · exact Or.inl ⟨by omega, if_pos hcontrol⟩
    rw [if_neg hcontrol]
    by_cases hascii : (asciiOnly && decide (126 < c.toNat)) = true
    · rw [if_pos hascii]
      by_cases hunit : c.toNat < 0x10000
      · exact Or.inl ⟨hunit, if_pos hunit⟩
      · exact Or.inr (Or.inl ⟨by omega, if_neg hunit⟩)
    · exact Or.inr (Or.inr ⟨if_neg hascii, hquote, hslash, hreturn, hcontrol⟩)

private theorem stringBody_stringChar (asciiOnly : Bool) (c : Char) {rest : List Char}
    (hrest : rest ≠ []) (opened fuel : Nat) (acc : List Char) :
    stringBody opened (fuel + 1) acc (stringChar asciiOnly c ++ rest) =
      stringBody opened fuel (c :: acc) rest := by
  have hcode : ∀ (cs : List Char), unicodeChar cs = .ok (c, rest) →
      stringBody opened (fuel + 1) acc ('\\' :: 'u' :: cs) =
        stringBody opened fuel (c :: acc) rest := by
    intro cs hcs
    simp [stringBody, hcs, bind, Except.bind]
  rcases stringChar_cases asciiOnly c with ⟨e, hwritten, hescape, -⟩ | ⟨hunit, hwritten⟩ |
    ⟨hpair, hwritten⟩ | ⟨hwritten, hquote, hslash, -, hcontrol⟩
  · have hu : e ≠ 'u' := by
      rintro rfl
      simp [simpleEscape?] at hescape
    simp [hwritten, stringBody, hescape]
  · rw [hwritten]
    exact hcode _ (unicodeChar_unit hunit hrest)
  · rw [hwritten, List.append_assoc]
    exact hcode _ (unicodeChar_pair hpair rfl rfl hrest)
  · simp [hwritten, stringBody, hquote, hslash, hcontrol]

private theorem stringBody_flatMap (asciiOnly : Bool) (cs rest : List Char) (opened : Nat)
    {fuel : Nat} (hfuel : cs.length < fuel) (acc : List Char) :
    stringBody opened fuel acc (cs.flatMap (stringChar asciiOnly) ++ '"' :: rest) =
      .ok (String.ofList (acc.reverse ++ cs), rest) := by
  induction cs generalizing fuel acc with
  | nil =>
    obtain ⟨fuel, rfl⟩ := Nat.exists_eq_add_of_lt hfuel
    simp [stringBody]
  | cons c cs ih =>
    obtain ⟨fuel, rfl⟩ : ∃ n, fuel = n + 1 := ⟨fuel - 1, by simp at hfuel; omega⟩
    rw [List.flatMap_cons, List.append_assoc, stringBody_stringChar asciiOnly c (by simp),
      ih (by simpa using hfuel)]
    simp

private theorem length_le_flatMap (asciiOnly : Bool) (cs : List Char) :
    cs.length ≤ (cs.flatMap (stringChar asciiOnly)).length := by
  induction cs with
  | nil => simp
  | cons c cs ih =>
    have hchar : 1 ≤ (stringChar asciiOnly c).length := by
      rcases stringChar_cases asciiOnly c with ⟨e, hwritten, -⟩ | ⟨-, hwritten⟩ | ⟨-, hwritten⟩ |
        ⟨hwritten, -⟩ <;> simp [hwritten, unitEscape]
    simp only [List.length_cons, List.flatMap_cons, List.length_append]
    omega

theorem readString_flatMap (asciiOnly : Bool) (s : String) (rest : List Char) :
    readString (s.toList.flatMap (stringChar asciiOnly) ++ '"' :: rest) = .ok (s, rest) := by
  have hlength := length_le_flatMap asciiOnly s.toList
  rw [readString, stringBody_flatMap asciiOnly s.toList rest]
  · simp
  · rw [List.length_append]
    omega

theorem return_not_mem_stringText (asciiOnly : Bool) (s : String) :
    '\r' ∉ (stringText asciiOnly s).toList := by
  have hdigit : ∀ d, '\r' ≠ Nat.digitChar (d % 16) := by
    intro d
    have hd : d % 16 < 16 := Nat.mod_lt _ (by decide)
    interval_cases d % 16 <;> decide
  have hescape : ∀ n, '\r' ∉ unitEscape n := by
    intro n
    simp [unitEscape, hexDigits, hdigit]
  have hchar : ∀ c, '\r' ∉ stringChar asciiOnly c := by
    intro c
    rcases stringChar_cases asciiOnly c with ⟨e, hwritten, -, hreturn⟩ | ⟨-, hwritten⟩ |
      ⟨-, hwritten⟩ | ⟨hwritten, -, -, hreturn, -⟩
    · simp [hwritten, hreturn.symm]
    · simp [hwritten, hescape]
    · simp [hwritten, hescape]
    · simp [hwritten, hreturn.symm]
  simp only [stringText, String.toList_ofList, List.cons_append, List.mem_cons, List.mem_append,
    List.mem_flatMap, List.not_mem_nil, or_false, not_or]
  refine ⟨by decide, ?_, by decide⟩
  rintro ⟨c, -, hc⟩
  exact hchar c hc

/-! Numbers. -/

/-- What can follow a value in a document: nothing that could go on with a number. -/
def Ends (rest : List Char) : Prop :=
  ∀ c ∈ rest.head?, c.isDigit = false ∧ c ≠ '.' ∧ c ≠ 'e' ∧ c ≠ 'E'

def EndsDigits (rest : List Char) : Prop := ∀ c ∈ rest.head?, c.isDigit = false

theorem Ends.endsDigits {rest : List Char} (h : Ends rest) : EndsDigits rest :=
  fun c hc => (h c hc).1

theorem takeWhile_digits {ds rest : List Char} (hds : ∀ c ∈ ds, c.isDigit = true)
    (hrest : EndsDigits rest) : (ds ++ rest).takeWhile Char.isDigit = ds := by
  rw [List.takeWhile_append_of_pos hds]
  cases rest with
  | nil => simp
  | cons c rest => simp [hrest c (by simp)]

theorem spanDigits_append {ds rest : List Char} (hds : ∀ c ∈ ds, c.isDigit = true)
    (hrest : EndsDigits rest) : spanDigits (ds ++ rest) = (ds, rest) := by
  have hdrop : (ds ++ rest).dropWhile Char.isDigit = rest := by
    rw [List.dropWhile_append_of_pos hds]
    cases rest with
    | nil => simp
    | cons c rest => simp [hrest c (by simp)]
  rw [spanDigits, takeWhile_digits hds hrest, hdrop]

theorem wholeDigits?_append {ds rest : List Char} (hne : ds ≠ [])
    (hds : ∀ c ∈ ds, c.isDigit = true) (hlead : ds = ['0'] ∨ ds.head? ≠ some '0')
    (hrest : EndsDigits rest) : wholeDigits? (ds ++ rest) = some (ds, rest) := by
  rcases hlead with rfl | hlead
  · rfl
  · have hspan := spanDigits_append hds hrest
    obtain ⟨d, more, rfl⟩ := List.exists_cons_of_ne_nil hne
    have hd : d ≠ '0' := fun heq => hlead (by simp [heq])
    rw [List.cons_append] at hspan ⊢
    rw [wholeDigits?.eq_def]
    split
    · rename_i heq
      exact absurd (List.cons.inj heq).1 hd
    · rename_i heq
      obtain ⟨rfl, -⟩ := List.cons.inj heq
      rw [if_pos (hds d (by simp)), hspan]
    · rename_i heq
      simp at heq

private theorem wholeDigits?_toDigits (n : Nat) {rest : List Char} (hrest : EndsDigits rest) :
    wholeDigits? (Nat.toDigits 10 n ++ rest) = some (Nat.toDigits 10 n, rest) := by
  have hlead : Nat.toDigits 10 n = ['0'] ∨ (Nat.toDigits 10 n).head? ≠ some '0' := by
    by_cases hzero : n = 0
    · exact .inl (by rw [hzero]; rfl)
    · exact .inr (Decimal.head_toDigits hzero)
  exact wholeDigits?_append Nat.toDigits_ne_nil
    (fun c hc => Nat.isDigit_of_mem_toDigits (by decide) (by decide) hc) hlead hrest

theorem Ends.exponentDigits?_eq {rest : List Char} (hrest : Ends rest) :
    exponentDigits? rest = none := by
  cases rest with
  | nil => rfl
  | cons c rest =>
    obtain ⟨-, -, hlower, hupper⟩ := hrest c (by simp)
    simp [exponentDigits?, hlower, hupper]

private theorem magnitude_toDigits (left : Nat) (negative : Bool) {n : Nat}
    (hlimit : (Nat.toDigits 10 n).length ≤ digitLimit) {rest : List Char} (hrest : Ends rest) :
    magnitude left negative (Nat.toDigits 10 n ++ rest) =
      .ok (.int (if negative then -(n : Int) else n), rest) := by
  have hfraction : fractionDigits? rest = none := by
    rw [fractionDigits?.eq_def]
    split
    · exact absurd rfl (hrest '.' (by simp)).2.1
    · rfl
  simp only [magnitude, wholeDigits?_toDigits n hrest.endsDigits, hfraction,
    hrest.exponentDigits?_eq, if_neg Bool.false_ne_true, if_neg (Nat.not_lt.mpr hlimit),
    Decimal.digitsValue_toDigits]

private theorem toList_toString (n : Int) :
    (toString n).toList =
      if n < 0 then '-' :: Nat.toDigits 10 n.natAbs else Nat.toDigits 10 n.natAbs := by
  have hnat : ∀ m : Nat, (toString m).toList = Nat.toDigits 10 m := by
    simp
  cases n with
  | ofNat m => exact hnat m
  | negSucc m =>
    rw [if_pos (Int.negSucc_lt_zero m)]
    show ("-" ++ toString (m + 1)).toList = _
    rw [String.toList_append, hnat]
    rfl

theorem return_not_mem_toString (n : Int) : '\r' ∉ (toString n).toList := by
  have hdigits : '\r' ∉ Nat.toDigits 10 n.natAbs := by
    intro hmem
    have hdigit := Nat.isDigit_of_mem_toDigits (by decide) (by decide) hmem
    simp [Char.isDigit] at hdigit
  rw [toList_toString]
  split_ifs <;> simp [hdigits]

theorem exists_toString_eq (n : Int) :
    ∃ c cs, (toString n).toList = c :: cs ∧ (c.isDigit = true ∨ c = '-') := by
  obtain ⟨d, ds, hds⟩ := List.exists_cons_of_ne_nil (Nat.toDigits_ne_nil (n := n.natAbs) (b := 10))
  have hd : d.isDigit = true :=
    Nat.isDigit_of_mem_toDigits (by decide) (by decide) (hds ▸ List.mem_cons_self)
  rw [toList_toString, hds]
  split_ifs
  · exact ⟨'-', _, rfl, Or.inr rfl⟩
  · exact ⟨d, _, rfl, Or.inl hd⟩

/-- How the text of an integer starts: with a digit, or with a sign and no word after it. -/
def StartsNumber (c : Char) (cs : List Char) : Prop :=
  c.isDigit = true ∨ c = '-' ∧ cs.head? ≠ some 'I'

private theorem word?_eq_none {c : Char} {cs : List Char} (h : StartsNumber c cs) :
    word? (c :: cs) = none := by
  have hletter : ∀ (a : Char) (w : List Char), a.isDigit = false → a ≠ '-' →
      afterStart? (c :: cs) (a :: w) = none := by
    intro a w hdigit hminus
    refine if_neg ?_
    rintro rfl
    simp [StartsNumber, hdigit, hminus] at h
  have hminus : ∀ w : List Char, afterStart? (c :: cs) ('-' :: 'I' :: w) = none := by
    intro w
    rcases h with hdigit | ⟨rfl, hsecond⟩
    · refine if_neg ?_
      rintro rfl
      simp [Char.isDigit] at hdigit
    · cases cs with
      | nil => simp [afterStart?]
      | cons d cs =>
        have hd : d ≠ 'I' := fun heq => hsecond (by simp [heq])
        simp [afterStart?, hd]
  simp [word?, hletter, hminus]

theorem value_eq_number {c : Char} {cs : List Char} (h : StartsNumber c cs) (fuel : Nat) :
    value (fuel + 1) (c :: cs) = number (c :: cs) := by
  rw [value.eq_5, word?_eq_none h]
  all_goals
    intro rest heq
    obtain ⟨rfl, -⟩ := List.cons.inj heq
    simp [StartsNumber, Char.isDigit] at h

theorem value_toString {n : Int} (hlimit : (toString n.natAbs).length ≤ digitLimit) (fuel : Nat)
    {rest : List Char} (hrest : Ends rest) :
    value (fuel + 1) ((toString n).toList ++ rest) = .ok (.int n, rest) := by
  have hdigits : (Nat.toDigits 10 n.natAbs).length ≤ digitLimit := by
    rwa [Nat.toString_eq_ofList_toDigits, String.length_ofList] at hlimit
  have hmagnitude := fun left negative => magnitude_toDigits left negative hdigits hrest
  obtain ⟨d, ds, hds⟩ := List.exists_cons_of_ne_nil (Nat.toDigits_ne_nil (n := n.natAbs) (b := 10))
  have hd : d.isDigit = true :=
    Nat.isDigit_of_mem_toDigits (by decide) (by decide) (hds ▸ List.mem_cons_self)
  have hne : d ≠ 'I' ∧ d ≠ '-' := by
    constructor <;> rintro rfl <;> simp [Char.isDigit] at hd
  rw [toList_toString]
  rw [hds, List.cons_append] at hmagnitude
  split_ifs with hsign
  · have hvalue : -(n.natAbs : Int) = n := by omega
    rw [hds, List.cons_append, List.cons_append, value_eq_number (Or.inr ⟨rfl, by simp [hne.1]⟩),
      number, hmagnitude, if_pos rfl, hvalue]
  · have hvalue : (n.natAbs : Int) = n := by omega
    rw [hds, List.cons_append, value_eq_number (Or.inl hd), number, hmagnitude,
      if_neg Bool.false_ne_true, hvalue]
    intro more heq
    exact hne.2 (List.cons.inj heq).1

end SuiteTidy.Json
