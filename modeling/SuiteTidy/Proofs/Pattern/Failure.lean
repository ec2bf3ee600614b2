import SuiteTidy.Proofs.Pattern.Views

/-!
Patterns that cannot be saved. A pattern is known to a store before its file is written, and what is
known is found without a look at the files. Main statement: a save that fails, on its own or inside
a call that saves a list or notes a sighting, leaves the files as they were, but its pattern is
found from then on. Nothing changes exactly if the very same pattern was found before.
-/

set_option autoImplicit false
set_option relaxedAutoImplicit false

namespace SuiteTidy.PatternStore

open FileTree Work

/-! Single steps. -/

private theorem still_find? (s : PatternStore) (id : String) : Still (s.find? id) := by
  rw [find?]
  cases s.known? id with
  | some p => exact fun _ => rfl
  | none =>
    refine (still_ask _).bind fun there => ?_
    cases there with
    | false => exact fun _ => rfl
    | true =>
      have hload : Still (Json.loadStrict (s.fileOf id)) :=
        (still_ask _).bind fun _ => still_lift _ _
      exact hload.bind fun _ => (still_lift _ _).bind fun _ _ => rfl

private theorem find?_remember (s : PatternStore) (p : Pattern) (id : String) (w : Workspace) :
    ((s.remember p).find? id w).1 = if id = p.id then .ok (some p) else (s.find? id w).1 := by
  rw [find?, known?_remember]
  split_ifs with hid
  · rfl
  · rfl

private theorem remember_remember (s : PatternStore) (p : Pattern) :
    (s.remember p).remember p = s.remember p := by
  have hplace : ∀ known : List (String × Pattern),
      remember.place p (remember.place p known) = remember.place p known := by
    intro known
    induction known with
    | nil => simp [remember.place]
    | cons x known ih =>
      by_cases hkey : x.1 = p.id
      · simp [remember.place, hkey]
      · simp [remember.place, hkey, ih]
  simp only [remember, hplace]

private theorem save_eq (s : PatternStore) (p : Pattern) (w : Workspace) :
    s.save p w = (.ok (s.remember p, (Json.store .stored p.toDatum (s.fileOf p.id) w).1),
      (Json.store .stored p.toDatum (s.fileOf p.id) w).2) := by
  rw [save]
  generalize Json.store .stored p.toDatum (s.fileOf p.id) = stored
  exact bind_ok (attempt_apply stored w) _

private theorem save_error {s s' : PatternStore} {p : Pattern} {w w' : Workspace} {f : Fault}
    (h : s.save p w = (.ok (s', .error f), w')) : s' = s.remember p ∧ w' = w := by
  rcases hstore : Json.store .stored p.toDatum (s.fileOf p.id) w with ⟨r, v⟩
  rw [save_eq, hstore] at h
  obtain ⟨hresult, rfl⟩ := Prod.mk.inj h
  obtain ⟨rfl, rfl⟩ := Prod.mk.inj (Except.ok.inj hresult)
  exact ⟨rfl, Json.store_error hstore⟩

/-! Saving a list. -/

section List

variable {s s' : PatternStore} {p : Pattern} {before : List Pattern} {w w' : Workspace} {f : Fault}

private theorem saveEach_cons_ok (h : s.save p w = (.ok (s', .ok ()), w')) (later : List Pattern) :
    s.saveEach (p :: later) w = s'.saveEach later w' := by
  rw [saveEach, bind_ok h]

private theorem saveEach_cons_error (h : s.save p w = (.ok (s', .error f), w'))
    (later : List Pattern) : s.saveEach (p :: later) w = (.ok (s', .error f), w') := by
  rw [saveEach, bind_ok h]
  rfl

private theorem saveEach_append (h : s.saveEach before w = (.ok (s', .ok ()), w'))
    (later : List Pattern) : s.saveEach (before ++ later) w = s'.saveEach later w' := by
  induction before generalizing s w with
  | nil =>
    obtain ⟨hresult, rfl⟩ := Prod.mk.inj h
    obtain ⟨rfl, -⟩ := Prod.mk.inj (Except.ok.inj hresult)
    rfl
  | cons p before ih =>
    rcases hstore : Json.store .stored p.toDatum (s.fileOf p.id) w with ⟨r, v⟩
    have hsave := save_eq s p w
    rw [hstore] at hsave
    cases r with
    | error f =>
      rw [saveEach_cons_error hsave] at h
      cases (Prod.mk.inj (Except.ok.inj (Prod.mk.inj h).1)).2
    | ok u =>
      rw [saveEach_cons_ok hsave] at h
      rw [List.cons_append, saveEach_cons_ok hsave]
      exact ih h

private theorem saveAll_error {s₀ : PatternStore} {w₀ : Workspace}
    (hbefore : s.saveEach before w = (.ok (s₀, .ok ()), w₀))
    (h : s₀.save p w₀ = (.ok (s', .error f), w')) (later : List Pattern) :
    s.saveAll (before ++ p :: later) w = (.ok (s', .error f), w') := by
  have heach : s.saveEach (before ++ p :: later) w = (.ok (s', .error f), w') := by
    rw [saveEach_append hbefore, saveEach_cons_error h]
  rw [saveAll, bind_ok heach]
  rfl

end List

/-! Calls. -/

def outcome (s : PatternStore) : Call → Work (PatternStore × Except Fault Unit)
  | .save p => s.save p
  | .saveAll ps => s.saveAll ps
  | .delete id => do
    let (s', r) ← s.delete id
    return (s', r.map fun _ => ())
  | .noteSeen id sample => s.noteSeen id sample

/-- The store after a pattern was found and changed: a known pattern is the one that was found, and
changes with it. -/
def touched (s : PatternStore) (id : String) (p : Pattern) : PatternStore :=
  if (s.known? id).isSome then s.remember p else s

private theorem save_touched (s : PatternStore) (id : String) (p : Pattern) (w : Workspace) :
    (s.touched id p).save p w = s.save p w := by
  rw [touched]
  split_ifs with hknown
  · rw [save_eq, save_eq, remember_remember]
    rfl
  · rfl

/-- A call on a store in a workspace comes to save a pattern: the store and the workspace by then,
and the pattern. -/
inductive Saving (s : PatternStore) (w : Workspace) :
    Call → PatternStore → Workspace → Pattern → Prop
  | save (p : Pattern) : Saving s w (.save p) s w p
  | saveAll {before : List Pattern} {s₀ : PatternStore} {w₀ : Workspace} (p : Pattern)
      (later : List Pattern) (hbefore : s.saveEach before w = (.ok (s₀, .ok ()), w₀)) :
      Saving s w (.saveAll (before ++ p :: later)) s₀ w₀ p
  | noteSeen {id : String} {p : Pattern} (sample : String)
      (hfound : (s.find? id w).1 = .ok (some p)) :
      Saving s w (.noteSeen id sample) (s.touched id (p.seen w.now sample)) w
        (p.seen w.now sample)

theorem Saving.outcome_eq {s s₀ s₁ : PatternStore} {w w₀ w₁ : Workspace} {c : Call} {p : Pattern}
    {f : Fault} (h : Saving s w c s₀ w₀ p) (hfails : s₀.save p w₀ = (.ok (s₁, .error f), w₁)) :
    s.outcome c w = (.ok (s₁, .error f), w₁) := by
  cases h with
  | save p => exact hfails
  | saveAll p later hbefore => exact saveAll_error hbefore hfails later
  | @noteSeen id q sample hfound =>
    -- The pattern that was found is changed in place, but the save makes it known anyway.
    have hfind : attempt (s.find? id) w = (.ok (.ok (some q)), w) := by
      rw [attempt_apply, hfound, still_find?]
    rw [save_touched] at hfails
    rw [outcome, PatternStore.noteSeen, bind_ok hfind]
    exact (bind_ok (now_apply w) _).trans hfails

/-- A save that fails inside a call ends the call, and the files stay as they were. What is found
under the identifier of its pattern is the pattern, whatever was found before, and what is found
under others stays. So all is as before exactly if the same pattern was found before. -/
theorem failed_save_unnoticed_iff {s s₀ s₁ : PatternStore} {w w₀ w₁ : Workspace} {c : Call}
    {p : Pattern} {f : Fault} (hsaving : Saving s w c s₀ w₀ p)
    (hfails : s₀.save p w₀ = (.ok (s₁, .error f), w₁)) :
    s.outcome c w = (.ok (s₁, .error f), w₁) ∧ w₁ = w₀ ∧
      (s₁.find? p.id w₁).1 = .ok (some p) ∧
      (∀ id, id ≠ p.id → (s₁.find? id w₁).1 = (s₀.find? id w₀).1) ∧
      ((∀ id, (s₁.find? id w₁).1 = (s₀.find? id w₀).1) ↔
        (s₀.find? p.id w₀).1 = .ok (some p)) := by
  have hends := hsaving.outcome_eq hfails
  obtain ⟨rfl, rfl⟩ := save_error hfails
  refine ⟨hends, rfl, ?_, fun id hid => ?_, fun hsame => ?_, fun hfound id => ?_⟩
  · rw [find?_remember, if_pos rfl]
  · rw [find?_remember, if_neg hid]
  · rw [← hsame, find?_remember, if_pos rfl]
  · rw [find?_remember]
    split_ifs with hid
    · rw [hid, hfound]
    · rfl

/-- A pattern whose file would lie in a directory that is not there. -/
def slashed : Pattern := { exemplified with id := "a/b" }

/-- The pattern cannot be saved. Nothing was found under its identifier before, and now it is. -/
theorem failed_save_unnoticed_iff_slashed :
    ∃ f w₁, outcome { folder := {} } (.save slashed) { now := { micros := 0 } } =
        (.ok (remember { folder := {} } slashed, .error f), w₁) ∧
      (find? { folder := {} } "a/b" { now := { micros := 0 } }).1 = .ok none ∧
      ((remember { folder := {} } slashed).find? "a/b" w₁).1 = .ok (some slashed) := by
  obtain ⟨f, hfails⟩ : ∃ f, save { folder := {} } slashed { now := { micros := 0 } } =
      (.ok (remember { folder := {} } slashed, .error f), { now := { micros := 0 } }) := ⟨_, rfl⟩
  obtain ⟨hends, -, hfound, -⟩ := failed_save_unnoticed_iff (.save slashed) hfails
  exact ⟨f, _, hends, rfl, hfound⟩

end SuiteTidy.PatternStore
