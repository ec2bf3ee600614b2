import SuiteTidy.Proofs.Pattern.Restart

/-!
What calls on a store of patterns come to. Under each identifier the pattern that was saved last is
found until it is deleted, whether or not it could be written. Listed are the patterns of the last
list that could be saved whole, whatever was saved and deleted since. So the two agree only as long
as every call leaves them in step.
-/

set_option autoImplicit false
set_option relaxedAutoImplicit false

namespace SuiteTidy.PatternStore

inductive Call where
  | save (p : Pattern)
  | saveAll (ps : List Pattern)
  | delete (id : String)
  | noteSeen (id sample : String)

/-- A call whose identifiers can stand in names of files, with times of the calendar in a list. -/
def Call.Sound : Call → Prop
  | .save p => Nameable p.id
  | .saveAll ps => ∀ p ∈ ps, Nameable p.id ∧ p.Dated
  | .delete id => Nameable id
  | .noteSeen id _ => Nameable id

/-- A pattern that can be saved where no directory is in the way. -/
def Keepable (p : Pattern) : Prop :=
  p.Writable ∧ (fileName p.id).utf8ByteSize ≤ FileTree.nameLimit

instance (p : Pattern) : Decidable (Keepable p) := inferInstanceAs (Decidable (_ ∧ _))

/-- The pattern that was saved last under each identifier, and the list that was saved last. -/
structure Ledger where
  latest : String → Option Pattern
  listed : List Pattern

namespace Ledger

def blank : Ledger := { latest := fun _ => none, listed := [] }

def note (g : Ledger) (p : Pattern) : Ledger :=
  { g with latest := Function.update g.latest p.id (some p) }

def strike (g : Ledger) (id : String) : Ledger :=
  { g with latest := Function.update g.latest id none }

/-- Notes patterns up to the first that cannot be saved, which is noted too. -/
def noteEach (g : Ledger) : List Pattern → Ledger
  | [] => g
  | p :: ps => if Keepable p then (g.note p).noteEach ps else g.note p

def after (g : Ledger) (now : Moment) : Call → Ledger
  | .save p => g.note p
  | .saveAll ps =>
    if ∀ p ∈ ps, Keepable p then { g.noteEach ps with listed := ps } else g.noteEach ps
  | .delete id => g.strike id
  | .noteSeen id sample => (g.latest id).elim g fun p => g.note (p.seen now sample)

def afterAll (g : Ledger) (calls : List (Moment × Call)) : Ledger :=
  calls.foldl (fun g c => g.after c.1 c.2) g

def Lists (g : Ledger) (id : String) (n : Int) : Prop :=
  ∃ p ∈ g.listed, p.id = id ∧ p.occurrences = n

/-- Listed are the identifiers that a pattern was saved last under, each once, and with the
occurrences of that pattern. -/
structure Agrees (g : Ledger) : Prop where
  once : (g.listed.map (·.id)).Nodup
  same : ∀ id n, g.Lists id n ↔ (g.latest id).map (·.occurrences) = some n

/-- A call that leaves a ledger in agreement with itself. -/
def InStep (g : Ledger) : Call → Prop
  | .save p => g.Lists p.id p.occurrences
  | .saveAll ps =>
    if ∀ p ∈ ps, Keepable p then
      (ps.map (·.id)).Nodup ∧ ∀ id, g.latest id ≠ none → id ∈ ps.map (·.id)
    else ∀ id p, (blank.noteEach ps).latest id = some p → g.Lists id p.occurrences
  | .delete id => g.latest id = none
  | .noteSeen id _ => g.latest id = none

def KeptInStep (g : Ledger) : List (Moment × Call) → Prop
  | [] => True
  | c :: calls => g.InStep c.2 ∧ (g.after c.1 c.2).KeptInStep calls

structure Sound (g : Ledger) : Prop where
  latest : ∀ {id p}, g.latest id = some p → p.id = id ∧ Nameable id
  listed : ∀ p ∈ g.listed, Nameable p.id ∧ p.Dated

variable {g : Ledger} {ps : List Pattern} {p : Pattern} {id : String}

theorem latest_note (g : Ledger) (p : Pattern) (id : String) :
    (g.note p).latest id = if id = p.id then some p else g.latest id := by
  rw [note]
  exact Function.update_apply g.latest p.id (some p) id

theorem latest_strike (g : Ledger) (id other : String) :
    (g.strike id).latest other = if other = id then none else g.latest other := by
  rw [strike]
  exact Function.update_apply g.latest id none other

private theorem listed_noteEach (g : Ledger) (ps : List Pattern) :
    (g.noteEach ps).listed = g.listed := by
  induction ps generalizing g with
  | nil => rfl
  | cons p ps ih =>
    rw [noteEach]
    split_ifs with hkeep
    · exact ih (g.note p)
    · rfl

private theorem latest_note_eq_or (g : Ledger) (p : Pattern) (id : String) :
    (g.note p).latest id = ((blank.note p).latest id).or (g.latest id) := by
  rw [latest_note, latest_note]
  split_ifs <;> rfl

private theorem latest_noteEach_eq_or (g : Ledger) (ps : List Pattern) (id : String) :
    (g.noteEach ps).latest id = ((blank.noteEach ps).latest id).or (g.latest id) := by
  induction ps generalizing g with
  | nil => rfl
  | cons p ps ih =>
    rw [noteEach, noteEach]
    split_ifs with hkeep
    · rw [ih (g.note p), ih (blank.note p), latest_note_eq_or g, Option.or_assoc]
    · exact latest_note_eq_or g p id

private theorem mem_of_latest_noteEach (h : (blank.noteEach ps).latest id = some p) :
    p ∈ ps ∧ p.id = id := by
  induction ps with
  | nil => cases h
  | cons q ps ih =>
    have hfirst (hq : (blank.note q).latest id = some p) : p = q ∧ p.id = id := by
      rw [latest_note] at hq
      split_ifs at hq with heq
      · obtain rfl := Option.some.inj hq
        exact ⟨rfl, heq.symm⟩
      · cases hq
    rw [noteEach] at h
    split_ifs at h with hkeep
    · rw [latest_noteEach_eq_or, Option.or_eq_some_iff] at h
      rcases h with h | ⟨-, h⟩
      · obtain ⟨hmem, hid⟩ := ih h
        exact ⟨List.mem_cons_of_mem q hmem, hid⟩
      · obtain ⟨rfl, hid⟩ := hfirst h
        exact ⟨List.mem_cons_self, hid⟩
    · obtain ⟨rfl, hid⟩ := hfirst h
      exact ⟨List.mem_cons_self, hid⟩

private theorem latest_noteEach_ne_none (hkeep : ∀ p ∈ ps, Keepable p) (hp : p ∈ ps) :
    (blank.noteEach ps).latest p.id ≠ none := by
  induction ps with
  | nil => cases hp
  | cons q ps ih =>
    rw [List.forall_mem_cons] at hkeep
    rw [noteEach, if_pos hkeep.1, latest_noteEach_eq_or, Ne, Option.or_eq_none_iff, not_and_or]
    rcases List.mem_cons.mp hp with rfl | hp
    · refine Or.inr ?_
      rw [latest_note, if_pos rfl]
      simp
    · exact Or.inl (ih hkeep.2 hp)

/-! One call. -/

/-- Where patterns are noted over a ledger that agrees with itself, it agrees again if each of them
is listed with its occurrences. -/
private theorem agrees_override_iff {g g' : Ledger} (hg : g.Agrees)
    {noted : String → Option Pattern} (hlisted : g'.listed = g.listed)
    (hlatest : ∀ id, g'.latest id = (noted id).or (g.latest id)) :
    g'.Agrees ↔ ∀ id p, noted id = some p → g.Lists id p.occurrences := by
  have hlists (id : String) (n : Int) : g'.Lists id n ↔ g.Lists id n := by
    rw [Lists, Lists, hlisted]
  constructor
  · intro h id p hp
    rw [← hlists, h.same, hlatest, hp]
    rfl
  · intro h
    refine ⟨hlisted ▸ hg.once, fun id n => ?_⟩
    rw [hlists, hlatest]
    cases hnoted : noted id with
    | none => exact hg.same id n
    | some p =>
      -- The pattern that was there before has the same number of occurrences.
      have hp := (hg.same id p.occurrences).mp (h id p hnoted)
      rw [hg.same, hp]
      rfl

private theorem agrees_note_iff (hg : g.Agrees) (p : Pattern) :
    (g.note p).Agrees ↔ g.Lists p.id p.occurrences := by
  have hlisted : (g.note p).listed = g.listed := rfl
  rw [agrees_override_iff hg hlisted (latest_note_eq_or g p)]
  constructor
  · intro h
    refine h p.id p ?_
    rw [latest_note, if_pos rfl]
  · intro h id q hq
    rw [latest_note] at hq
    split_ifs at hq with heq
    · obtain rfl := Option.some.inj hq
      exact heq ▸ h
    · cases hq

private theorem agrees_strike_iff (hg : g.Agrees) (id : String) :
    (g.strike id).Agrees ↔ g.latest id = none := by
  constructor
  · intro h
    by_contra hsome
    obtain ⟨p, hp⟩ := Option.ne_none_iff_exists'.mp hsome
    have hlists : g.Lists id p.occurrences := by
      rw [hg.same, hp]
      rfl
    have hnone := (h.same id p.occurrences).mp hlists
    rw [latest_strike, if_pos rfl] at hnone
    cases hnone
  · intro hnone
    have hsame : g.strike id = g := by
      rw [strike, ← hnone, Function.update_eq_self]
    rwa [hsame]

private theorem agrees_listed_iff (hkeep : ∀ p ∈ ps, Keepable p) :
    Agrees { g.noteEach ps with listed := ps } ↔
      (ps.map (·.id)).Nodup ∧ ∀ id, g.latest id ≠ none → id ∈ ps.map (·.id) := by
  constructor
  · intro h
    refine ⟨h.once, fun id hid => ?_⟩
    have hfound : (g.noteEach ps).latest id ≠ none := by
      rw [latest_noteEach_eq_or, Ne, Option.or_eq_none_iff]
      exact fun hnone => hid hnone.2
    obtain ⟨p, hp⟩ := Option.ne_none_iff_exists'.mp hfound
    obtain ⟨q, hq, hqid, -⟩ := (h.same id p.occurrences).mpr (by rw [hp]; rfl)
    exact hqid ▸ List.mem_map_of_mem hq
  · rintro ⟨honce, hold⟩
    refine ⟨honce, fun id n => ?_⟩
    show (∃ p ∈ ps, p.id = id ∧ p.occurrences = n) ↔
      ((g.noteEach ps).latest id).map (·.occurrences) = some n
    rw [latest_noteEach_eq_or]
    -- Either the list has a pattern under the identifier, or nothing was there before either.
    cases hnew : (blank.noteEach ps).latest id with
    | none =>
      have habsent : id ∉ ps.map (·.id) := by
        intro hid
        obtain ⟨p, hp, rfl⟩ := List.mem_map.mp hid
        exact latest_noteEach_ne_none hkeep hp hnew
      have hnone : g.latest id = none := by
        by_contra hsome
        exact habsent (hold id hsome)
      rw [hnone]
      constructor
      · rintro ⟨p, hp, rfl, -⟩
        exact absurd (List.mem_map_of_mem hp) habsent
      · intro h
        cases h
    | some p =>
      obtain ⟨hp, hid⟩ := mem_of_latest_noteEach hnew
      constructor
      · rintro ⟨q, hq, hqid, rfl⟩
        obtain rfl := List.inj_on_of_nodup_map honce hq hp (hqid.trans hid.symm)
        rfl
      · intro h
        exact ⟨p, hp, hid, Option.some.inj h⟩

private theorem agrees_after_iff (hg : g.Agrees) (hsound : g.Sound) (now : Moment) (c : Call) :
    (g.after now c).Agrees ↔ g.InStep c := by
  cases c with
  | save p => exact agrees_note_iff hg p
  | delete id => exact agrees_strike_iff hg id
  | saveAll ps =>
    rw [after, InStep]
    split_ifs with hkeep
    · exact agrees_listed_iff hkeep
    · exact agrees_override_iff hg (listed_noteEach g ps) (latest_noteEach_eq_or g ps)
  | noteSeen id sample =>
    rw [after, InStep]
    cases hp : g.latest id with
    | none => exact iff_of_true hg rfl
    | some p =>
      obtain ⟨rfl, -⟩ := hsound.latest hp
      refine iff_of_false ?_ (by simp)
      -- One more occurrence is never the number that is listed.
      rw [Option.elim_some, agrees_note_iff hg, hg.same]
      show ¬(g.latest p.id).map (·.occurrences) = some (p.occurrences + 1)
      rw [hp, Option.map_some, Option.some.injEq]
      omega

theorem Sound.note (h : g.Sound) (hp : Nameable p.id) : (g.note p).Sound where
  listed := h.listed
  latest := by
    intro id q hq
    rw [latest_note] at hq
    split_ifs at hq with heq
    · obtain rfl := Option.some.inj hq
      exact ⟨heq.symm, heq ▸ hp⟩
    · exact h.latest hq

theorem Sound.noteEach (h : g.Sound) (hps : ∀ p ∈ ps, Nameable p.id) : (g.noteEach ps).Sound := by
  induction ps generalizing g with
  | nil => exact h
  | cons p ps ih =>
    rw [List.forall_mem_cons] at hps
    rw [Ledger.noteEach]
    split_ifs with hkeep
    · exact ih (h.note hps.1) hps.2
    · exact h.note hps.1

theorem Sound.after (h : g.Sound) (now : Moment) {c : Call} (hc : c.Sound) :
    (g.after now c).Sound := by
  cases c with
  | save p => exact h.note hc
  | delete id =>
    refine ⟨fun {other q} hq => ?_, h.listed⟩
    rw [Ledger.after, latest_strike] at hq
    split_ifs at hq
    exact h.latest hq
  | saveAll ps =>
    have hnoted := h.noteEach fun p hp => (hc p hp).1
    rw [Ledger.after]
    split_ifs with hkeep
    · exact ⟨hnoted.latest, hc⟩
    · exact hnoted
  | noteSeen id sample =>
    rw [Ledger.after]
    cases hp : g.latest id with
    | none => exact h
    | some p =>
      obtain ⟨rfl, hid⟩ := h.latest hp
      exact h.note hid

/-! Many calls. -/

theorem sound_blank : blank.Sound where
  latest h := by cases h
  listed p hp := by cases hp

theorem agrees_blank : blank.Agrees where
  once := List.nodup_nil
  same id n := by simp [Lists, blank]

theorem agrees_all_along_iff {calls : List (Moment × Call)} (hg : g.Agrees) (hsound : g.Sound)
    (hcalls : ∀ c ∈ calls, c.2.Sound) :
    (∀ earlier, earlier <+: calls → (g.afterAll earlier).Agrees) ↔ g.KeptInStep calls := by
  induction calls generalizing g with
  | nil =>
    rw [KeptInStep, iff_true]
    intro earlier hearlier
    rw [List.prefix_nil.mp hearlier]
    exact hg
  | cons c calls ih =>
    rw [List.forall_mem_cons] at hcalls
    have hsound' := hsound.after c.1 hcalls.1
    rw [KeptInStep, ← agrees_after_iff hg hsound c.1]
    constructor
    · intro h
      have hafter : (g.after c.1 c.2).Agrees := h [c] (by simp)
      refine ⟨hafter, (ih hafter hsound' hcalls.2).mp fun earlier hearlier => ?_⟩
      exact h (c :: earlier) (by simpa using hearlier)
    · rintro ⟨hafter, hrest⟩ earlier hearlier
      rcases List.prefix_cons_iff.mp hearlier with rfl | ⟨more, rfl, hmore⟩
      · exact hg
      · exact (ih hafter hsound' hcalls.2).mpr hrest more hmore

end Ledger
end SuiteTidy.PatternStore
