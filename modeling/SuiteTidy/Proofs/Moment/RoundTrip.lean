import SuiteTidy.Moment.Reading
import SuiteTidy.Proofs.Decimal.Written
import SuiteTidy.Proofs.Moment.Calendar

/-!
Points in time that are read back as they were written. Main statement: this goes for every point in
time in the years from 1 to 9999, with or without a distance from the reference zone of less than a
day.
-/

set_option autoImplicit false
set_option relaxedAutoImplicit false

namespace SuiteTidy.Moment

open Decimal

/-! Digits. -/

structure Spells (width : Nat) (n : Int) (ds : List Char) : Prop where
  length_eq : ds.length = width
  digits : ∀ c ∈ ds, c.isDigit = true
  value_eq : (digitsValue ds : Int) = n

private theorem toList_padded (width : Nat) (n : Int) : (padded width n).toList =
    List.replicate (width - (Nat.toDigits 10 n.natAbs).length) '0' ++ Nat.toDigits 10 n.natAbs := by
  simp [padded]

theorem isDigit_of_mem_padded {width : Nat} {n : Int} {c : Char}
    (hc : c ∈ (padded width n).toList) : c.isDigit = true := by
  rw [toList_padded] at hc
  rcases List.mem_append.mp hc with hc | hc
  · rw [List.eq_of_mem_replicate hc]
    rfl
  · exact Nat.isDigit_of_mem_toDigits (by decide) (by decide) hc

private theorem spells_padded {width : Nat} (hwidth : 0 < width) {n : Int} (hlow : 0 ≤ n)
    (hhigh : n < 10 ^ width) : Spells width n (padded width n).toList := by
  have hlength : (Nat.toDigits 10 n.natAbs).length ≤ width := by
    refine Nat.toDigits_length 10 n.natAbs width hwidth ?_
    zify
    rwa [abs_of_nonneg hlow]
  refine ⟨?_, fun c => isDigit_of_mem_padded, ?_⟩
  · rw [toList_padded]
    simp
    omega
  · rw [toList_padded, digitsValue_zeros_append, digitsValue_toDigits]
    omega

private theorem go_append {ds : List Char} (hds : ∀ c ∈ ds, c.isDigit = true) (acc : Int)
    (rest : List Char) :
    digits?.go ds.length acc (ds ++ rest) =
      some (acc * 10 ^ ds.length + (digitsValue ds : Int), rest) := by
  induction ds generalizing acc with
  | nil => simp [digits?.go, digitsValue]
  | cons d ds ih =>
    rw [List.forall_mem_cons] at hds
    have hvalue := digitsValue_append [d] ds
    rw [List.singleton_append] at hvalue
    rw [List.length_cons, List.cons_append, digits?.go, if_pos hds.1, ih hds.2, hvalue]
    congr 2
    simp [digitsValue]
    ring

private theorem Spells.digits?_eq {width : Nat} {n : Int} {ds : List Char} (h : Spells width n ds)
    (rest : List Char) : digits? width (ds ++ rest) = some (n, rest) := by
  have hgo := go_append h.digits 0 rest
  rw [h.length_eq, h.value_eq, zero_mul, zero_add] at hgo
  exact hgo

private theorem spells_two {n : Int} (hlow : 0 ≤ n) (hhigh : n < 100) : Spells 2 n (two n).toList :=
  spells_padded (by decide) hlow hhigh

private theorem Spells.drop_eq {width : Nat} {n : Int} {ds : List Char} (h : Spells width n ds)
    (rest : List Char) : (ds ++ rest).drop width = rest := by
  rw [← h.length_eq, List.drop_left]

private theorem Spells.ne_nil {width : Nat} {n : Int} {ds : List Char} (h : Spells width n ds)
    (hwidth : 0 < width) : ds ≠ [] := List.ne_nil_of_length_pos (h.length_eq ▸ hwidth)

/-! Times of day. -/

section Clock

variable {fuel i : Nat} {v : Int} {ds : List Char} (hds : Spells 2 v ds) (clock : Clock)
  (after : List Char)

include hds

private theorem clock?_colon (hi : i < 2) {cs : List Char} (hcs : cs ≠ []) :
    clock? (fuel + 1) i true clock (ds ++ ':' :: cs) after =
      clock? fuel (i + 1) true (setField i v clock) cs after := by
  have hlength := List.length_pos_of_ne_nil hcs
  have hmore : ¬ (':' :: cs).length ≤ 1 := by
    rw [List.length_cons]
    omega
  rw [clock?, List.append_assoc, hds.digits?_eq, Option.bind_eq_bind, Option.bind_some]
  dsimp only
  rw [hds.drop_eq, if_neg hmore]
  simp [hi.ne]

private theorem clock?_end : clock? (fuel + 1) i true clock ds after =
    some (setField i v clock, !after.isEmpty) := by
  have hleft : ds.drop 2 = [] := by simp [← hds.length_eq]
  rw [clock?, hds.digits?_eq, Option.bind_eq_bind, Option.bind_some]
  dsimp only
  rw [hleft]
  rfl

private theorem clock?_point {us : Int} {fs : List Char} (hfs : Spells 6 us fs)
    (hafter : after.dropWhile Char.isDigit = after) :
    clock? (fuel + 1) 2 true clock (ds ++ '.' :: fs) after =
      some ((clock.1, clock.2.1, v, us), !after.isEmpty) := by
  have hmore : ¬ ('.' :: fs).length ≤ 1 := by
    rw [List.length_cons, hfs.length_eq]
    decide
  rw [clock?, List.append_assoc, hds.digits?_eq, Option.bind_eq_bind, Option.bind_some]
  dsimp only
  rw [hds.drop_eq, if_neg hmore]
  have hread := hfs.digits?_eq []
  rw [List.append_nil] at hread
  simp [fraction?, hfs.length_eq, hread, hafter, setField]

end Clock

def clockChars (h mi s us : Int) : List Char :=
  (two h).toList ++ ':' :: ((two mi).toList ++ ':' ::
    ((two s).toList ++ if us = 0 then [] else '.' :: (padded 6 us).toList))

private theorem clock?_clockChars {h mi s us : Int} (hh : 0 ≤ h ∧ h < 100) (hmi : 0 ≤ mi ∧ mi < 100)
    (hs : 0 ≤ s ∧ s < 100) (hus : 0 ≤ us ∧ us < 1000000) {after : List Char}
    (hafter : after.dropWhile Char.isDigit = after) :
    clock? 3 0 true (0, 0, 0, 0) (clockChars h mi s us) after =
      some ((h, mi, s, us), !after.isEmpty) := by
  have hseconds := spells_two hs.1 hs.2
  rw [clockChars, clock?_colon (spells_two hh.1 hh.2) _ _ (by decide) (by simp),
    clock?_colon (spells_two hmi.1 hmi.2) _ _ (by decide)
      (List.append_ne_nil_of_left_ne_nil (hseconds.ne_nil (by decide)) _)]
  split_ifs with hzero
  · rw [List.append_nil, clock?_end hseconds, hzero]
    rfl
  · rw [clock?_point hseconds _ _ (spells_padded (by decide) hus.1 hus.2) hafter]
    rfl

private theorem clock?_minutes {h mi : Int} (hh : 0 ≤ h ∧ h < 100) (hmi : 0 ≤ mi ∧ mi < 100) :
    clock? 3 0 true (0, 0, 0, 0) ((two h).toList ++ ':' :: (two mi).toList) [] =
      some ((h, mi, 0, 0), false) := by
  have hminutes := spells_two hmi.1 hmi.2
  rw [clock?_colon (spells_two hh.1 hh.2) _ _ (by decide) (hminutes.ne_nil (by decide)),
    clock?_end hminutes]
  rfl

private theorem clockFields_mem {size : Int} (hlow : 0 ≤ size) (hhigh : size < perDay) :
    (0 ≤ size / perSecond / 3600 ∧ size / perSecond / 3600 < 24) ∧
      (0 ≤ size / perSecond / 60 % 60 ∧ size / perSecond / 60 % 60 < 60) ∧
      (0 ≤ size / perSecond % 60 ∧ size / perSecond % 60 < 60) ∧
      (0 ≤ size % perSecond ∧ size % perSecond < 1000000) ∧
      (size / perSecond / 3600 * 3600 + size / perSecond / 60 % 60 * 60 + size / perSecond % 60) *
        perSecond + size % perSecond = size := by
  simp only [perDay, perSecond] at hhigh ⊢
  omega

/-! Distances from the reference zone. -/

/-- The text of a distance is a sign and a time, which is read as the size of the distance. -/
private theorem exists_offsetText {off : Int} (hoff : off.natAbs < perDay) :
    ∃ cs h mi s us, (offsetText (some off)).toList = (if off < 0 then '-' else '+') :: cs ∧
      clock? 3 0 true (0, 0, 0, 0) cs [] = some ((h, mi, s, us), false) ∧
      (h * 3600 + mi * 60 + s) * perSecond + us = off.natAbs := by
  obtain ⟨hh, hmi, hs, hus, hsum⟩ := clockFields_mem (Int.natCast_nonneg off.natAbs) hoff
  have hsign : (if off < 0 then "-" else "+").toList = [if off < 0 then '-' else '+'] := by
    split_ifs <;> rfl
  let size : Int := off.natAbs
  have htext : offsetText (some off) = (if off < 0 then "-" else "+") ++
      two (size / perSecond / 3600) ++ ":" ++ two (size / perSecond / 60 % 60) ++
      if size / perSecond % 60 = 0 ∧ size % perSecond = 0 then ""
      else ":" ++ two (size / perSecond % 60) ++
        if size % perSecond = 0 then "" else "." ++ padded 6 (size % perSecond) := rfl
  rw [htext]
  by_cases hwhole : size / perSecond % 60 = 0 ∧ size % perSecond = 0
  · refine ⟨_, _, _, 0, 0, ?_, clock?_minutes (hh.imp_right (by omega)) (hmi.imp_right (by omega)),
      ?_⟩
    · rw [if_pos hwhole]
      simp [hsign, size]
    · rwa [show (off.natAbs : Int) / perSecond % 60 = 0 from hwhole.1,
        show (off.natAbs : Int) % perSecond = 0 from hwhole.2] at hsum
  · refine ⟨_, _, _, _, _, ?_,
      clock?_clockChars (hh.imp_right (by omega)) (hmi.imp_right (by omega))
        (hs.imp_right (by omega)) hus rfl, hsum⟩
    rw [if_neg hwhole, clockChars]
    simp only [String.toList_append, hsign]
    split_ifs <;> simp [size]

/-! Times with a distance. -/

private theorem startsZone_clockChars {h mi s us : Int} (hh : 0 ≤ h ∧ h < 100)
    (hmi : 0 ≤ mi ∧ mi < 100) (hs : 0 ≤ s ∧ s < 100) (hus : 0 ≤ us ∧ us < 1000000) :
    ∀ c ∈ clockChars h mi s us, startsZone c = false := by
  have hall : ∀ {width : Nat} {n : Int} {ds : List Char}, Spells width n ds →
      ∀ c ∈ ds, startsZone c = false := by
    intro width n ds hds c hc
    have hdigit := hds.digits c hc
    rw [Bool.eq_false_iff]
    intro hzone
    simp only [startsZone, Bool.or_eq_true, beq_iff_eq] at hzone
    rcases hzone with (rfl | rfl) | rfl <;> simp [Char.isDigit] at hdigit
  have hpart : ∀ c ∈ if us = 0 then [] else '.' :: (padded 6 us).toList, startsZone c = false := by
    split_ifs
    · simp
    · exact List.forall_mem_cons.mpr ⟨rfl, hall (spells_padded (by decide) hus.1 hus.2)⟩
  simp only [clockChars, List.forall_mem_append, List.forall_mem_cons]
  exact ⟨hall (spells_two hh.1 hh.2), rfl, hall (spells_two hmi.1 hmi.2), rfl,
    hall (spells_two hs.1 hs.2), hpart⟩

private theorem time?_clockChars {h mi s us : Int} (hh : 0 ≤ h ∧ h < 100) (hmi : 0 ≤ mi ∧ mi < 100)
    (hs : 0 ≤ s ∧ s < 100) (hus : 0 ≤ us ∧ us < 1000000) {offset : Option Int}
    (hoffset : ∀ off ∈ offset, off.natAbs < perDay) :
    time? (clockChars h mi s us ++ (offsetText offset).toList) =
      some ((h, mi, s, us), offset) := by
  have hplain := startsZone_clockChars hh hmi hs hus
  have hclock : ∀ after : List Char, after.dropWhile Char.isDigit = after →
      clock? 3 0 true (0, 0, 0, 0) (clockChars h mi s us) after =
        some ((h, mi, s, us), !after.isEmpty) :=
    fun _ hafter => clock?_clockChars hh hmi hs hus hafter
  obtain ⟨c, cs, hcs⟩ : ∃ c cs, clockChars h mi s us = c :: cs :=
    List.exists_cons_of_ne_nil (List.append_ne_nil_of_right_ne_nil _ (List.cons_ne_nil _ _))
  rw [hcs] at hclock hplain ⊢
  rw [List.forall_mem_cons] at hplain
  -- The time ends where the distance starts with its sign.
  have hbody : ∀ zone : List Char, (∀ z ∈ zone.head?, startsZone z = true) →
      (cs ++ zone).takeWhile (fun c => !startsZone c) = cs := by
    intro zone hzone
    rw [List.takeWhile_append_of_pos (by simpa using hplain.2)]
    cases zone with
    | nil => simp
    | cons z zone => simp [hzone z (by simp)]
  cases offset with
  | none =>
    have hread := hclock [] rfl
    have hend := hbody [] (by simp)
    rw [List.append_nil] at hend
    simp only [offsetText, String.toList_empty, List.append_nil, time?, List.take_succ_cons,
      List.take_zero, List.drop_succ_cons, List.drop_zero, List.head?_cons, Option.map_some,
      Option.getD_some, hplain.1, Bool.false_eq_true, if_false, hend, List.singleton_append,
      List.drop_length, hread]
    rfl
  | some off =>
    obtain ⟨zs, zh, zm, zsec, zus, htext, hzone, hsize⟩ := exists_offsetText (hoffset off rfl)
    obtain ⟨sign, hsign⟩ : ∃ sign, sign = if off < 0 then '-' else '+' := ⟨_, rfl⟩
    have hstarts : startsZone sign = true ∧ sign ≠ 'Z' ∧ sign.isDigit = false := by
      rw [hsign]
      split_ifs <;> decide
    have hread := hclock (sign :: zs) (by simp [hstarts.2.2])
    have hend := hbody (sign :: zs) (by simp [hstarts.1])
    have hdistance : (if sign = '-' then -(off.natAbs : Int) else (off.natAbs : Int)) = off := by
      by_cases hnegative : off < 0
      · rw [hsign, if_pos hnegative, if_pos rfl]
        omega
      · rw [hsign, if_neg hnegative, if_neg (by decide)]
        omega
    rw [htext, ← hsign]
    simp only [time?, List.cons_append, List.nil_append, List.take_succ_cons, List.take_zero,
      List.drop_succ_cons, List.drop_zero, List.head?_cons, Option.map_some, Option.getD_some,
      hplain.1, Bool.false_eq_true, if_false, hend, List.length_cons, List.drop_left, hread]
    rw [Option.bind_eq_bind, Option.bind_some]
    split
    case h_1 hnil => cases hnil
    case h_2 hcons => exact absurd (List.cons.inj hcons).1 hstarts.2.1
    case h_3 hcons =>
      obtain ⟨rfl, rfl⟩ := List.cons.inj hcons
      rw [hzone, Option.bind_some]
      dsimp only
      rw [hsize, hdistance]
      rfl

/-! Dates. -/

def dateChars (d : Date) : List Char :=
  (padded 4 d.year).toList ++ '-' :: ((two d.month).toList ++ '-' :: (two d.day).toList)

section Dates

variable {d : Date} (hd : d.Exists)

include hd

private theorem spells_fields :
    Spells 4 d.year (padded 4 d.year).toList ∧ Spells 2 d.month (two d.month).toList ∧
      Spells 2 d.day (two d.day).toList := by
  obtain ⟨hyear, hmonth, hday⟩ := hd
  have hshort : daysIn d.year d.month ≤ 31 := by
    unfold daysIn
    split_ifs <;> decide
  exact ⟨spells_padded (by decide) (by omega) (by omega), spells_two (by omega) (by omega),
    spells_two (by omega) (by omega)⟩

private theorem length_dateChars : (dateChars d).length = 10 := by
  obtain ⟨hyear, hmonth, hday⟩ := spells_fields hd
  simp [dateChars, hyear.length_eq, hmonth.length_eq, hday.length_eq]

private theorem exists_month : ∃ c cs, (two d.month).toList = c :: cs ∧ c ≠ 'W' := by
  obtain ⟨-, hmonth, -⟩ := spells_fields hd
  obtain ⟨c, cs, hcs⟩ := List.exists_cons_of_ne_nil (hmonth.ne_nil (by decide))
  have hdigit := hmonth.digits c (by simp [hcs])
  refine ⟨c, cs, hcs, ?_⟩
  rintro rfl
  simp [Char.isDigit] at hdigit

private theorem dateLength?_dateChars (rest : List Char) :
    dateLength? (dateChars d ++ rest) = some 10 := by
  obtain ⟨hyear, -, -⟩ := spells_fields hd
  obtain ⟨c, cs, hmonth, hc⟩ := exists_month hd
  have hlength : (dateChars d ++ rest).length = 10 + rest.length := by
    rw [List.length_append, length_dateChars hd]
  have hfifth : (dateChars d ++ rest)[4]? = some '-' := by
    simp [dateChars, hyear.length_eq]
  have hsixth : (dateChars d ++ rest)[5]? = some c := by
    simp [dateChars, hmonth, List.getElem?_append_right, hyear.length_eq]
  simp only [dateLength?, hlength, hfifth, hsixth, Option.getD_some, hc, if_true, if_false]
  rw [if_neg (by omega), if_neg (by omega)]

private theorem date?_dateChars (n : Nat) (rest : List Char) :
    date? n (dateChars d ++ rest) = some d := by
  obtain ⟨hyear, hmonth, hday⟩ := spells_fields hd
  obtain ⟨c, cs, hcs, hc⟩ := exists_month hd
  have hletter : (((two d.month).toList ++ '-' :: ((two d.day).toList ++ rest)).head? == some 'W') =
      false := by
    simp [hcs, hc]
  simp only [date?, dateChars, List.append_assoc, List.cons_append, hyear.digits?_eq, hletter,
    hmonth.digits?_eq, hday.digits?_eq, Option.bind_eq_bind, Option.bind_some, List.head?_cons,
    beq_self_eq_true, bne_self_eq_false, Bool.and_false, if_true, List.drop_succ_cons,
    List.drop_zero, Bool.false_eq_true, if_false]
  rfl

end Dates

/-! Points in time. -/

/-- A point in time in one of the years from 1 to 9999, less than a day away from the reference
zone. -/
structure OnCalendar (m : Moment) : Prop where
  low : 0 ≤ m.micros
  high : m.micros < 3652059 * perDay
  offset : ∀ off ∈ m.offset, off.natAbs < perDay

private theorem toList_iso (micros : Int) (offset : Option Int) :
    (iso ⟨micros, offset⟩).toList = dateChars (dateOf (micros / perDay)) ++ 'T' ::
      (clockChars (micros % perDay / perSecond / 3600) (micros % perDay / perSecond / 60 % 60)
        (micros % perDay / perSecond % 60) (micros % perDay % perSecond) ++
        (offsetText offset).toList) := by
  have hmicro : micros % perDay % perSecond = micros % perSecond := by
    simp only [perDay, perSecond]
    omega
  have htime : timeText ⟨micros, offset⟩ = two (micros % perDay / perSecond / 3600) ++ ":" ++
      two (micros % perDay / perSecond / 60 % 60) ++ ":" ++
        two (micros % perDay / perSecond % 60) ++
      if micros % perSecond = 0 then "" else "." ++ padded 6 (micros % perSecond) := rfl
  rw [iso, textWith, htime, hmicro, clockChars]
  split_ifs <;> simp [dateText, dateChars]

private theorem checkedZone_eq {offset : Option Int} (h : ∀ off ∈ offset, off.natAbs < perDay) :
    checkedZone offset = .ok () := by
  cases offset with
  | none => rfl
  | some off => rw [checkedZone, if_pos (h off rfl)]

private theorem checked_eq {d : Date} (hd : d.Exists) {h mi s us : Int} (hh : h < 24)
    (hmi : mi < 60) (hs : s < 60) (offset : Option Int) :
    checked d.year d.month d.day h mi s us offset =
      .ok (ofFields d.year d.month d.day h mi s us offset) := by
  obtain ⟨hyear, hmonth, hday⟩ := hd
  rw [checked, if_neg (by omega), if_neg (by omega), if_neg (by omega), if_neg (by omega),
    if_neg (by omega), if_neg (by omega)]

theorem read_iso {m : Moment} (h : m.OnCalendar) : read m.iso = .ok m := by
  obtain ⟨micros, offset⟩ := m
  obtain ⟨hlow, hhigh, hoffset⟩ := h
  dsimp only at hlow hhigh hoffset
  have hday : 0 ≤ micros / perDay ∧ micros / perDay < 3652059 := by
    simp only [perDay, perSecond] at hhigh ⊢
    omega
  have hpart : 0 ≤ micros % perDay ∧ micros % perDay < perDay := by
    simp only [perDay, perSecond]
    omega
  obtain ⟨hdate, hnumber⟩ := dateOf_mem hday.1 hday.2
  obtain ⟨hh, hmi, hs, hus, hsum⟩ := clockFields_mem hpart.1 hpart.2
  have htime := time?_clockChars (hh.imp_right (by omega)) (hmi.imp_right (by omega))
    (hs.imp_right (by omega)) hus hoffset
  have hdrop : ∀ rest : List Char,
      (dateChars (dateOf (micros / perDay)) ++ 'T' :: rest).drop (10 + 1) = rest := by
    intro rest
    rw [← length_dateChars hdate, List.drop_length_add_append, List.drop_succ_cons, List.drop_zero]
  have hlength : ∀ rest : List Char,
      (dateChars (dateOf (micros / perDay)) ++ 'T' :: rest).length > 10 := by
    intro rest
    rw [List.length_append, length_dateChars hdate, List.length_cons]
    omega
  have hwhole : ofFields (dateOf (micros / perDay)).year (dateOf (micros / perDay)).month
      (dateOf (micros / perDay)).day (micros % perDay / perSecond / 3600)
      (micros % perDay / perSecond / 60 % 60) (micros % perDay / perSecond % 60)
      (micros % perDay % perSecond) offset = ⟨micros, offset⟩ := by
    have hsplit := Int.mul_ediv_add_emod micros perDay
    rw [ofFields, hnumber, Moment.mk.injEq]
    exact ⟨by linear_combination hsum + hsplit, rfl⟩
  simp only [read, toList_iso, dateLength?_dateChars hdate, date?_dateChars hdate, hlength, hdrop,
    htime, Option.bind_eq_bind, Option.bind_some, if_true, Option.pure_def, checkedZone_eq hoffset,
    checked_eq hdate hh.2 hmi.2 hs.2, hwhole]
  rfl

end SuiteTidy.Moment
