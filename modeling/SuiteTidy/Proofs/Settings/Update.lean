import SuiteTidy.Settings.Basic
import Mathlib.Data.List.Infix

/-!
Setting the value of a dotted key. Where a value that is no dictionary stands on the way, nothing is
changed. Everywhere else the new value is found under its key, the values off the path are as they
were, and only the last of several values set under one key counts.
-/

set_option autoImplicit false
set_option relaxedAutoImplicit false

namespace SuiteTidy

/-! The fields of a dictionary under a text key. -/

namespace Datum

variable {key other : String} {v w : Datum} {fields : List (Datum × Datum)}

private theorem same_text_iff {d : Datum} : d.same (.text key) = true ↔ d = .text key := by
  cases d <;> simp [same, sameTo, number?]

theorem lookup_put_self : lookup (.text key) (put (.text key) v fields) = some v := by
  induction fields with
  | nil => simp [put, lookup, same_text_iff]
  | cons field fields ih =>
    by_cases hkey : field.1.same (.text key) = true
    · simp [put, lookup, hkey]
    · simp [put, lookup, hkey, ih]

theorem lookup_put_of_ne (hne : other ≠ key) :
    lookup (.text other) (put (.text key) v fields) = lookup (.text other) fields := by
  have hapart : ∀ {d : Datum}, d = .text key → ¬d.same (.text other) = true := by
    intro d hd hsame
    rw [same_text_iff, hd] at hsame
    exact hne (Datum.text.inj hsame).symm
  induction fields with
  | nil => simp [put, lookup, hapart]
  | cons field fields ih =>
    by_cases hkey : field.1.same (.text key) = true
    · simp [put, lookup, hkey, hapart (same_text_iff.mp hkey)]
    · simp [put, lookup, hkey, ih]

private theorem put_put :
    put (.text key) w (put (.text key) v fields) = put (.text key) w fields := by
  induction fields with
  | nil => simp [put, same_text_iff]
  | cons field fields ih =>
    by_cases hkey : field.1.same (.text key) = true
    · simp [put, hkey]
    · simp [put, hkey, ih]

private theorem put_of_lookup (h : lookup (.text key) fields = some v) :
    put (.text key) v fields = fields := by
  induction fields with
  | nil => simp [lookup] at h
  | cons field fields ih =>
    by_cases hkey : field.1.same (.text key) = true
    · simp only [lookup, hkey, if_true, Option.some.injEq] at h
      simp [put, hkey, ← h]
    · simp only [lookup, hkey] at h
      simp [put, hkey, ih h]

end Datum

namespace Settings

open Datum (lookup put)

variable {value : Datum} {path : List String} {d d' : Datum}

/-- What a value becomes when the value at the end of a path through it is set. There is none if a
value that is no dictionary stands on the way. -/
def settled (value : Datum) : List String → Datum → Option Datum
  | [], _ => some value
  | k :: ks, .dict fields =>
    (settled value ks ((lookup (.text k) fields).getD (.dict []))).map fun inner =>
      .dict (put (.text k) inner fields)
  | _ :: _, _ => none

/-- A proper part of a path leads to a value that is no dictionary. -/
def Blocked (path : List String) (d : Datum) : Prop :=
  ∃ before, before <+: path ∧ before ≠ path ∧
    ∃ found, valueAt before d = some found ∧ ∀ fields, found ≠ .dict fields

private theorem dict_or_not (d : Datum) :
    (∃ fields, d = .dict fields) ∨ ∀ fields, d ≠ .dict fields := by
  cases d with
  | dict fields => exact .inl ⟨fields, rfl⟩
  | _ => exact .inr (by simp)

private theorem settled_of_not_dict {k : String} {ks : List String}
    (hd : ∀ fields, d ≠ .dict fields) : settled value (k :: ks) d = none := by
  cases d with
  | dict fields => exact absurd rfl (hd fields)
  | _ => rfl

private theorem valueAt_of_not_dict {k : String} {ks : List String}
    (hd : ∀ fields, d ≠ .dict fields) : valueAt (k :: ks) d = none := by
  cases d with
  | dict fields => exact absurd rfl (hd fields)
  | _ => rfl

private theorem valueAt_dict (k : String) (ks : List String) (fields : List (Datum × Datum)) :
    valueAt (k :: ks) (.dict fields) = (lookup (.text k) fields).bind (valueAt ks) := rfl

-- The dictionaries that are made on the way stand in no one's way.
private theorem exists_settled_empty (value : Datum) (path : List String) :
    ∃ d', settled value path (.dict []) = some d' := by
  induction path with
  | nil => exact ⟨value, rfl⟩
  | cons k ks ih =>
    obtain ⟨inner, hinner⟩ := ih
    exact ⟨.dict [(.text k, inner)], by simp [settled, lookup, hinner, put]⟩

/-! The steps of a change, and that a change that fails has changed nothing. -/

section Steps

variable {α β : Type}

private theorem get_bind (next : Datum → Edit β) : (MonadState.get >>= next) d = next d d := rfl

private theorem set_bind (next : Unit → Edit β) : (set d' >>= next) d = next () d' := rfl

private theorem ok_bind (a : α) (next : α → Edit β) :
    ((liftM (.ok a : Datum.Found α) : Edit α) >>= next) d = next a d := rfl

private theorem error_bind (fault : DatumFault) (next : α → Edit β) :
    ((liftM (.error fault : Datum.Found α) : Edit α) >>= next) d = (.error fault, d) := rfl

private theorem liftM_apply (found : Datum.Found α) : (liftM found : Edit α) d = (found, d) := rfl

private theorem bind_ok {step : Edit α} {next : α → Edit β} {a : α} (h : step d = (.ok a, d')) :
    (step >>= next) d = next a d' := by
  have hbind : (step >>= next) d = ExceptT.bindCont next (step d).1 (step d).2 := rfl
  rw [hbind, h]
  rfl

private theorem bind_error {step : Edit α} {next : α → Edit β} {fault : DatumFault}
    (h : step d = (.error fault, d')) : (step >>= next) d = (.error fault, d') := by
  have hbind : (step >>= next) d = ExceptT.bindCont next (step d).1 (step d).2 := rfl
  rw [hbind, h]
  rfl

end Steps

private theorem item_of_not_dict (k : String) (hd : ∀ fields, d ≠ .dict fields) :
    ∃ fault, d.item k = .error fault := by
  cases d with
  | dict fields => exact absurd rfl (hd fields)
  | _ => exact ⟨_, rfl⟩

private theorem putItem_of_not_dict (k : String) (value : Datum)
    (hd : ∀ fields, d ≠ .dict fields) : ∃ fault, putItem k value d = .error fault := by
  cases d with
  | dict fields => exact absurd rfl (hd fields)
  | _ => exact ⟨_, rfl⟩

-- A text may be a part of a text or an item of a list, but it leads nowhere from there.
private theorem enter_of_not_dict (k : String) (hd : ∀ fields, d ≠ .dict fields) :
    ∃ fault, enter k d = (.error fault, d) := by
  obtain ⟨unread, hitem⟩ := item_of_not_dict k hd
  obtain ⟨unset, hput⟩ := putItem_of_not_dict k (.dict []) hd
  cases hholds : d.holds k with
  | error fault => exact ⟨fault, by simp [enter, get_bind, hholds, error_bind]⟩
  | ok known =>
    cases known with
    | false => exact ⟨unset, by simp [enter, get_bind, hholds, ok_bind, hput, error_bind]⟩
    | true => exact ⟨unread, by simp [enter, get_bind, hholds, ok_bind, hitem, liftM_apply]⟩

section Dictionary

variable {k : String} {fields : List (Datum × Datum)}

private theorem enter_known {inner : Datum} (h : lookup (.text k) fields = some inner) :
    enter k (.dict fields) = (.ok inner, .dict fields) := by
  simp [enter, get_bind, ok_bind, liftM_apply, Datum.holds, Datum.item, h]

private theorem enter_missing (h : lookup (.text k) fields = none) :
    enter k (.dict fields) = (.ok (.dict []), .dict (put (.text k) (.dict []) fields)) := by
  have hnew : Datum.item k (.dict (put (.text k) (.dict []) fields)) = .ok (.dict []) := by
    simp [Datum.item, Datum.lookup_put_self]
  simp [enter, get_bind, set_bind, ok_bind, liftM_apply, Datum.holds, h, putItem, hnew]

private theorem within_dict {α : Type} {inner changed : Datum} {step : Edit α}
    {result : Except DatumFault α} (h : step inner = (result, changed)) :
    within k inner step (.dict fields) = (result, .dict (put (.text k) changed fields)) := by
  simp [within, h, putItem]

end Dictionary

private theorem assign_eq (value : Datum) (hpath : path ≠ []) (d : Datum) :
    (∃ d', settled value path d = some d' ∧ assign value path d = (.ok (), d')) ∨
      (settled value path d = none ∧ ∃ fault, assign value path d = (.error fault, d)) := by
  induction path generalizing d with
  | nil => exact absurd rfl hpath
  | cons k ks ih =>
    obtain ⟨fields, rfl⟩ | hdict := dict_or_not d
    · cases ks with
      | nil => exact .inl ⟨_, rfl, rfl⟩
      | cons k' ks =>
        have hrest := ih (List.cons_ne_nil k' ks)
        cases hfound : lookup (.text k) fields with
        | some inner =>
          obtain ⟨changed, hsettled, hassign⟩ | ⟨hsettled, fault, hassign⟩ := hrest inner
          · refine .inl ⟨.dict (put (.text k) changed fields), ?_, ?_⟩
            · simp [settled, hfound, hsettled]
            · exact (bind_ok (enter_known hfound)).trans (within_dict hassign)
          · refine .inr ⟨by simp [settled, hfound, hsettled], fault, ?_⟩
            refine (bind_ok (enter_known hfound)).trans ?_
            rw [within_dict hassign, Datum.put_of_lookup hfound]
        | none =>
          obtain ⟨made, hmade⟩ := exists_settled_empty value (k' :: ks)
          obtain ⟨changed, hsettled, hassign⟩ | ⟨hsettled, -⟩ := hrest (.dict [])
          · refine .inl ⟨.dict (put (.text k) changed fields), ?_, ?_⟩
            · simp [settled, hfound, hsettled]
            · refine (bind_ok (enter_missing hfound)).trans ?_
              rw [within_dict hassign, Datum.put_put]
          · simp [hmade] at hsettled
    · refine .inr ⟨settled_of_not_dict hdict, ?_⟩
      cases ks with
      | nil =>
        obtain ⟨fault, hput⟩ := putItem_of_not_dict k value hdict
        exact ⟨fault, by simp [assign, get_bind, hput, error_bind]⟩
      | cons k' ks =>
        obtain ⟨fault, henter⟩ := enter_of_not_dict k hdict
        exact ⟨fault, bind_error henter⟩

/-! The laws, each along the path. -/

private theorem blocked_cons_iff {k : String} {ks : List String} {fields : List (Datum × Datum)} :
    Blocked (k :: ks) (.dict fields) ↔
      ∃ inner, lookup (.text k) fields = some inner ∧ Blocked ks inner := by
  constructor
  · rintro ⟨before, hbefore, hne, found, hfound, hplain⟩
    cases before with
    | nil => exact absurd (Option.some.inj hfound).symm (hplain fields)
    | cons k' before =>
      obtain ⟨rfl, hshorter⟩ := List.cons_prefix_cons.mp hbefore
      obtain ⟨inner, hinner, hfound⟩ := Option.bind_eq_some_iff.mp hfound
      exact ⟨inner, hinner, before, hshorter, fun heq => hne (by rw [heq]), found, hfound, hplain⟩
  · rintro ⟨inner, hinner, before, hbefore, hne, found, hfound, hplain⟩
    refine ⟨k :: before, List.cons_prefix_cons.mpr ⟨rfl, hbefore⟩, by simpa using hne, found, ?_,
      hplain⟩
    rw [valueAt_dict, hinner]
    exact hfound

private theorem settled_eq_none_iff : settled value path d = none ↔ Blocked path d := by
  induction path generalizing d with
  | nil =>
    refine ⟨fun h => by simp [settled] at h, ?_⟩
    rintro ⟨before, hbefore, hne, -⟩
    exact absurd (List.prefix_nil.mp hbefore) hne
  | cons k ks ih =>
    obtain ⟨fields, rfl⟩ | hdict := dict_or_not d
    · rw [blocked_cons_iff, settled, Option.map_eq_none_iff]
      cases hfound : lookup (.text k) fields with
      | some inner => simp [ih]
      | none =>
        obtain ⟨made, hmade⟩ := exists_settled_empty value ks
        simp [hmade]
    · have hblocked : Blocked (k :: ks) d := ⟨[], List.nil_prefix, by simp, d, rfl, hdict⟩
      simp [settled_of_not_dict hdict, hblocked]

private theorem not_blocked_of_settled (h : settled value path d = some d') :
    ¬Blocked path d := by
  intro hblocked
  have hnone : settled value path d = none := settled_eq_none_iff.mpr hblocked
  simp [h] at hnone

-- The shape of a dictionary in which the value at the end of a longer path was set.
private theorem exists_of_settled_cons {k : String} {ks : List String}
    (h : settled value (k :: ks) d = some d') :
    ∃ fields inner, d = .dict fields ∧ d' = .dict (put (.text k) inner fields) ∧
      settled value ks ((lookup (.text k) fields).getD (.dict [])) = some inner := by
  cases d with
  | dict fields =>
    obtain ⟨inner, hinner, rfl⟩ := Option.map_eq_some_iff.mp h
    exact ⟨fields, inner, rfl, rfl, hinner⟩
  | _ => simp [settled] at h

private theorem valueAt_settled (h : settled value path d = some d') :
    valueAt path d' = some value := by
  induction path generalizing d d' with
  | nil => exact h.symm
  | cons k ks ih =>
    obtain ⟨fields, inner, rfl, rfl, hinner⟩ := exists_of_settled_cons h
    rw [valueAt_dict, Datum.lookup_put_self]
    exact ih hinner

private theorem settled_settled (h : settled value path d = some d') (later : Datum) :
    settled later path d' = settled later path d := by
  induction path generalizing d d' with
  | nil => rfl
  | cons k ks ih =>
    obtain ⟨fields, inner, rfl, rfl, hinner⟩ := exists_of_settled_cons h
    simp only [settled, Datum.lookup_put_self, Option.getD_some, ih hinner, Datum.put_put]

private theorem settled_of_valueAt (h : valueAt path d = some value) :
    settled value path d = some d := by
  induction path generalizing d with
  | nil => exact h.symm
  | cons k ks ih =>
    obtain ⟨fields, rfl⟩ | hdict := dict_or_not d
    · rw [valueAt_dict] at h
      obtain ⟨inner, hinner, hvalue⟩ := Option.bind_eq_some_iff.mp h
      simp [settled, hinner, ih hvalue, Datum.put_of_lookup hinner]
    · simp [valueAt_of_not_dict hdict] at h

private theorem valueAt_settled_of_apart {other : List String} (h : settled value path d = some d')
    (hbehind : ¬path <+: other) (hbefore : ¬other <+: path) :
    valueAt other d' = valueAt other d := by
  induction path generalizing d d' other with
  | nil => exact absurd List.nil_prefix hbehind
  | cons k ks ih =>
    obtain ⟨fields, inner, rfl, rfl, hinner⟩ := exists_of_settled_cons h
    cases other with
    | nil => exact absurd List.nil_prefix hbefore
    | cons k' other =>
      rw [valueAt_dict, valueAt_dict]
      by_cases hk : k' = k
      · subst hk
        rw [List.cons_prefix_cons, not_and] at hbehind hbefore
        have hrest := ih hinner (hbehind rfl) (hbefore rfl)
        rw [Datum.lookup_put_self, Option.bind_some, hrest]
        cases hfound : lookup (.text k') fields with
        | some known => rfl
        | none =>
          -- In a dictionary that was just made there is nothing beside the path.
          cases other with
          | nil => exact absurd List.nil_prefix (hbefore rfl)
          | cons k'' other => rfl
      · rw [Datum.lookup_put_of_ne hk]

private theorem pathOf_ne_nil (key : String) : pathOf key ≠ [] := by
  intro h
  exact List.splitOn_ne_nil '.' key.toList (List.map_eq_nil_iff.mp h)

structure SetAt (key : String) (value : Datum) (before after : Settings) : Prop where
  found : ∀ other, after.get key other = value
  apart : ∀ key' other, ¬pathOf key <+: pathOf key' → ¬pathOf key' <+: pathOf key →
    after.get key' other = before.get key' other
  overridden : ∀ later, after.update key later = before.update key later
  kept : (∀ other, before.get key other = value) → after = before

private theorem update_of_settled {s : Settings} {key : String}
    (h : settled value (pathOf key) s.values = some d') :
    s.update key value = (.ok (), { s with values := d' }) := by
  obtain ⟨made, hmade, hassign⟩ | ⟨hnone, -⟩ := assign_eq value (pathOf_ne_nil key) s.values
  · rw [h, Option.some.injEq] at hmade
    simp [update, hassign, hmade]
  · simp [h] at hnone

private theorem setAt_of_settled {s : Settings} {key : String}
    (h : settled value (pathOf key) s.values = some d') :
    SetAt key value s { s with values := d' } where
  found other := by rw [get, valueAt_settled h, Option.getD_some]
  apart key' other hbehind hbefore := by
    rw [get, get, valueAt_settled_of_apart h hbehind hbefore]
  overridden later := by
    obtain ⟨made, hmade⟩ : ∃ made, settled later (pathOf key) s.values = some made := by
      apply Option.ne_none_iff_exists'.mp
      intro hnone
      exact not_blocked_of_settled h (settled_eq_none_iff.mp hnone)
    rw [update_of_settled hmade]
    exact update_of_settled ((settled_settled h later).trans hmade)
  kept hvalue := by
    have hthere : valueAt (pathOf key) s.values = some value := by
      cases hfound : valueAt (pathOf key) s.values with
      | some known => simpa [get, hfound] using hvalue .null
      | none =>
        -- A missing key answers with whatever it is asked with, and so not always with one value.
        have hnull : Datum.null = value := by simpa [get, hfound] using hvalue .null
        have htrue : Datum.bool true = value := by simpa [get, hfound] using hvalue (.bool true)
        exact absurd (hnull.trans htrue.symm) (by simp)
    rw [settled_of_valueAt hthere, Option.some.injEq] at h
    rw [← h]

/-- Setting a value fails exactly where a value that is no dictionary stands on the path, and then
the settings are as before. Otherwise it works, and the new settings answer as they should. -/
theorem update_lens_laws (s : Settings) (key : String) (value : Datum) :
    (Blocked (pathOf key) s.values ∧ ∃ fault, s.update key value = (.error fault, s)) ∨
      (¬Blocked (pathOf key) s.values ∧
        ∃ after, s.update key value = (.ok (), after) ∧ SetAt key value s after) := by
  obtain ⟨d', hsettled, -⟩ | ⟨hsettled, fault, hassign⟩ :=
    assign_eq value (pathOf_ne_nil key) s.values
  · right
    exact ⟨not_blocked_of_settled hsettled, { s with values := d' }, update_of_settled hsettled,
      setAt_of_settled hsettled⟩
  · left
    exact ⟨settled_eq_none_iff.mp hsettled, fault, by simp [update, hassign]⟩

end Settings
end SuiteTidy
