import SuiteTidy.Proofs.Cache.Run

/-!
A cache as a map with expiry. The ledger of a run says what was set last under each key and when it
expires. As long as values are set in memory too and the keys can be names of files, asking for a
key gives what the ledger has for it, whatever was expired, loaded and removed at either level in
between. Where a value is set past the memory, an older copy there is what is seen.
-/

set_option autoImplicit false
set_option relaxedAutoImplicit false

namespace SuiteTidy.Cache

/-- The time, the hours that a value is kept by default, and what was set last under each key and
not removed since. -/
structure Ledger where
  now : Moment
  hours : Datum
  latest : String → Option Deposit

namespace Ledger

def opened (now : Moment) (hours : Datum) : Ledger := { now, hours, latest := fun _ => none }

/-- What has been set last under a key, if it has not expired. -/
def current (g : Ledger) (key : String) : Option Datum := (g.latest key).bind (·.worth g.now)

def write (g : Ledger) (key : String) (d : Option Deposit) : Ledger :=
  { g with latest := fun other => if other = key then d else g.latest other }

def record (g : Ledger) : Request → Answer → Ledger
  | .set key value hours _, .success true =>
    g.write key ((expiresAt? g.now g.hours hours).map fun expiresAt => { value, expiresAt })
  | .delete key, _ => g.write key none
  | .clear, _ => { g with latest := fun _ => none }
  | .wait micros, _ => { g with now := g.now.later micros }
  | .restart hours, _ => { g with hours }
  | _, _ => g

def after (g : Ledger) (history : List (Request × Answer)) : Ledger :=
  history.foldl (fun g x => g.record x.1 x.2) g

end Ledger

namespace Request

def SetsMemory : Request → Prop
  | .set _ _ _ useMemory => useMemory = true
  | _ => True

end Request

/-! The files of a cache and the ledger. -/

/-- The file of a key holds what was set last under it, or there is none, and then nothing that was
set is still current. -/
def Filed (v : View) (g : Ledger) (key : String) : Prop :=
  (v.files (nameOf key)).map depositOf = g.latest key ∨
    v.files (nameOf key) = none ∧ g.current key = none

private theorem Ledger.current_later {g g' : Ledger} {key : String}
    (hlatest : g'.latest key = g.latest key) (hnow : g.now.micros ≤ g'.now.micros)
    (h : g.current key = none) : g'.current key = none := by
  rw [Ledger.current] at h ⊢
  rw [hlatest]
  cases hd : g.latest key with
  | none => rfl
  | some d =>
    simp only [hd, Option.bind_some, Deposit.worth] at h ⊢
    split_ifs at h with hexpired
    exact if_pos (by omega)

theorem Filed.congr {v v' : View} {g g' : Ledger} {key : String} (h : Filed v g key)
    (hfiles : v'.files (nameOf key) = v.files (nameOf key)) (hlatest : g'.latest key = g.latest key)
    (hnow : g.now.micros ≤ g'.now.micros) : Filed v' g' key := by
  rcases h with hsame | ⟨hnone, hcurrent⟩
  · exact .inl (by rw [hfiles, hlatest, hsame])
  · exact .inr ⟨hfiles.trans hnone, Ledger.current_later hlatest hnow hcurrent⟩

theorem Filed.expire {v v' : View} {g : Ledger} {key : String} {e : CacheEntry} (h : Filed v g key)
    (he : v.files (nameOf key) = some e) (hexpired : e.isExpired g.now = true)
    (hgone : v'.files (nameOf key) = none) : Filed v' g key := by
  rcases h with hsame | ⟨hnone, -⟩
  · refine .inr ⟨hgone, ?_⟩
    rw [Ledger.current, ← hsame, he]
    exact worth_of_expired hexpired
  · rw [he] at hnone
    cases hnone

structure Agrees (keys : Set String) (v : View) (g : Ledger) : Prop where
  now : v.now = g.now
  hours : v.hours = g.hours
  filed : ∀ key ∈ keys, Filed v g key

structure Apart (keys : Set String) : Prop where
  storable : ∀ key ∈ keys, Storable key
  injective : Set.InjOn nameOf keys

section Agreement

variable {keys : Set String} {v v' : View} {g : Ledger} {r : Request} {a : Answer}

theorem Agrees.step (h : Agrees keys v g) (hkeys : Apart keys) (hr : ∀ key ∈ r.key?, key ∈ keys)
    (hstep : Step v r a v') : Agrees keys v' (g.record r a) := by
  cases hstep with
  | recalled => exact ⟨h.now, h.hours, h.filed⟩
  | lapsed => exact ⟨h.now, h.hours, h.filed⟩
  | @loaded key useMemory e =>
    cases useMemory with
    | false => exact h
    | true => exact ⟨h.now, h.hours, h.filed⟩
  | @lapsedFile key useMemory e hmemory hfile hexpired =>
    refine ⟨h.now, h.hours, fun other hother => ?_⟩
    -- Whichever key the file is looked at for, its entry has expired.
    by_cases hname : nameOf other = nameOf key
    · refine (h.filed other hother).expire (hname ▸ hfile) (h.now ▸ hexpired) ?_
      simp [View.discard, hname]
    · exact (h.filed other hother).congr (by simp [View.discard, hname]) rfl le_rfl
  | absent => exact h
  | unnamed => exact h
  | @stored key value hours useMemory expiresAt hkey hexpiry =>
    refine ⟨by rw [View.put_now, h.now]; rfl, by rw [View.put_hours, h.hours]; rfl,
      fun other hother => ?_⟩
    rw [h.now, h.hours] at hexpiry
    by_cases hsame : other = key
    · subst hsame
      refine .inl ?_
      simp [View.put_files, Ledger.record, Ledger.write, hexpiry, depositOf]
    · -- A new file would do away with what another key of the same name had.
      have hname : nameOf other ≠ nameOf key := fun heq =>
        hsame (hkeys.injective hother (hr key rfl) heq)
      exact (h.filed other hother).congr (by simp [View.put_files, hname])
        (by simp [Ledger.record, Ledger.write, hsame]) le_rfl
  | refused => exact h
  | @deleted key hkey =>
    refine ⟨h.now, h.hours, fun other hother => ?_⟩
    by_cases hsame : other = key
    · subst hsame
      refine .inl ?_
      simp [View.discard, Ledger.record, Ledger.write]
    · have hname : nameOf other ≠ nameOf key := fun heq =>
        hsame (hkeys.injective hother (hr key rfl) heq)
      exact (h.filed other hother).congr (by simp [View.discard, View.drop, hname])
        (by simp [Ledger.record, Ledger.write, hsame]) le_rfl
  | @undeleted key f hkey => exact absurd hkey (hkeys.storable key (hr key rfl)).not_overlong
  | cleared => exact ⟨h.now, h.hours, fun _ _ => .inl rfl⟩
  | cleaned =>
    refine ⟨h.now, h.hours, fun other hother => ?_⟩
    have hfiled := h.filed other hother
    cases hfile : v.files (nameOf other) with
    | none => exact hfiled.congr (by simp [View.swept, hfile]) rfl le_rfl
    | some e =>
      cases hexpired : e.isExpired v.now with
      | false => exact hfiled.congr (by simp [View.swept, hfile, hexpired]) rfl le_rfl
      | true =>
        exact hfiled.expire hfile (h.now ▸ hexpired) (by simp [View.swept, hfile, hexpired])
  | @waited micros =>
    refine ⟨by simp [Ledger.record, h.now], h.hours, fun other hother => ?_⟩
    refine (h.filed other hother).congr rfl rfl ?_
    simp only [Ledger.record, Moment.later]
    omega
  | restarted => exact ⟨h.now, rfl, h.filed⟩

theorem Filed.latest {key : String} {e : CacheEntry} (h : Filed v g key)
    (he : v.files (nameOf key) = some e) : g.latest key = some (depositOf e) := by
  rcases h with hsame | ⟨hnone, -⟩
  · rw [← hsame, he]
    rfl
  · rw [he] at hnone
    cases hnone

theorem Agrees.answer_file (h : Agrees keys v g) {key : String} (hkey : key ∈ keys) :
    v.answer key false = g.current key := by
  have hanswer : v.answer key false =
      ((v.files (nameOf key)).map depositOf).bind (·.worth v.now) := by
    rw [View.answer, View.recalled, Option.bind_map]
    rfl
  rw [hanswer, h.now]
  rcases h.filed key hkey with hsame | ⟨hnone, hcurrent⟩
  · rw [hsame]
    rfl
  · rw [hnone, hcurrent]
    rfl

theorem answer_unremembered {key : String} (h : v.memory key = none) :
    v.answer key true = v.answer key false := by
  simp [View.answer, View.recalled, h]

theorem answer_remembered {key : String} {e : CacheEntry} (h : v.memory key = some e) :
    v.answer key true = (depositOf e).worth v.now := by
  simp [View.answer, View.recalled, h]

/-! The memory of a cache and the ledger. -/

def Mirrors (keys : Set String) (v : View) (g : Ledger) : Prop :=
  ∀ key ∈ keys, ∀ e, v.memory key = some e → g.latest key = some (depositOf e)

theorem Mirrors.step (h : Mirrors keys v g) (hfiles : Agrees keys v g) (hset : r.SetsMemory)
    (hstep : Step v r a v') : Mirrors keys v' (g.record r a) := by
  intro other hother x hx
  cases hstep with
  | @recalled key useMemory e hmemory hlive =>
    by_cases hsame : other = key
    · subst hsame
      obtain rfl : met e = x := by simpa [View.keep] using hx
      exact h other hother e (memory_of_recalled hmemory).2
    · exact h other hother x (by simpa [View.keep, hsame] using hx)
  | @lapsed key useMemory e =>
    by_cases hsame : other = key
    · simp [View.drop, hsame] at hx
    · exact h other hother x (by simpa [View.drop, hsame] using hx)
  | @loaded key useMemory e hmemory hfile hlive =>
    cases useMemory with
    | false => exact h other hother x hx
    | true =>
      by_cases hsame : other = key
      · subst hsame
        obtain rfl : met e = x := by simpa [View.keep] using hx
        have hlatest := (hfiles.filed other hother).latest hfile
        exact hlatest
      · exact h other hother x (by simpa [View.keep, hsame] using hx)
  | lapsedFile => exact h other hother x hx
  | absent => exact h other hother x hx
  | unnamed => exact h other hother x hx
  | @stored key value hours useMemory expiresAt hkey hexpiry =>
    obtain rfl : useMemory = true := hset
    rw [hfiles.now, hfiles.hours] at hexpiry
    by_cases hsame : other = key
    · subst hsame
      simp only [View.put, View.keep, if_true, Option.some.injEq] at hx
      simp [Ledger.record, Ledger.write, hexpiry, ← hx, depositOf]
    · have hold := h other hother x (by simpa [View.put, View.keep, View.store, hsame] using hx)
      simpa [Ledger.record, Ledger.write, hsame] using hold
  | refused => exact h other hother x hx
  | @deleted key =>
    by_cases hsame : other = key
    · simp [View.discard, View.drop, hsame] at hx
    · have hold := h other hother x (by simpa [View.discard, View.drop, hsame] using hx)
      simpa [Ledger.record, Ledger.write, hsame] using hold
  | @undeleted key =>
    by_cases hsame : other = key
    · simp [View.drop, hsame] at hx
    · have hold := h other hother x (by simpa [View.drop, hsame] using hx)
      simpa [Ledger.record, Ledger.write, hsame] using hold
  | cleared => cases hx
  | cleaned => exact h other hother x (Option.filter_eq_some_iff.mp hx).1
  | waited => exact h other hother x hx
  | restarted => cases hx

theorem Mirrors.answer (h : Mirrors keys v g) (hfiles : Agrees keys v g) {key : String}
    (hkey : key ∈ keys) (useMemory : Bool) : v.answer key useMemory = g.current key := by
  cases useMemory with
  | false => exact hfiles.answer_file hkey
  | true =>
    cases hmemory : v.memory key with
    | none => rw [answer_unremembered hmemory, hfiles.answer_file hkey]
    | some e =>
      rw [answer_remembered hmemory, Ledger.current, h key hkey e hmemory, hfiles.now]
      rfl

end Agreement

/-! Runs. -/

theorem agrees_blank (keys : Set String) (now : Moment) (hours : Datum) :
    Agrees keys (.blank now hours) (.opened now hours) :=
  ⟨rfl, rfl, fun _ _ => .inl rfl⟩

theorem mirrors_blank (keys : Set String) (now : Moment) (hours : Datum) :
    Mirrors keys (.blank now hours) (.opened now hours) := by
  intro key _ e he
  cases he

theorem Runs.agrees {keys : Set String} (hkeys : Apart keys) {v v' : View} {g : Ledger}
    {requests : List Request} {answers : List Answer} (hfor : For keys requests)
    (hruns : Runs v (requests.zip answers) v') (h : Agrees keys v g) :
    Agrees keys v' (g.after (requests.zip answers)) := by
  refine hruns.preserves (P := Agrees keys) (fun x hx u u' s hs hstep => ?_) h
  exact hs.step hkeys (hfor x.1 (List.of_mem_zip hx).1) hstep

theorem Runs.mirrors {keys : Set String} (hkeys : Apart keys) {v v' : View} {g : Ledger}
    {requests : List Request} {answers : List Answer} (hfor : For keys requests)
    (hset : ∀ r ∈ requests, r.SetsMemory) (hruns : Runs v (requests.zip answers) v')
    (hfiles : Agrees keys v g) (h : Mirrors keys v g) :
    Mirrors keys v' (g.after (requests.zip answers)) := by
  refine (hruns.preserves (P := fun v g => Agrees keys v g ∧ Mirrors keys v g)
    (fun x hx u u' s hs hstep => ?_) ⟨hfiles, h⟩).2
  have hr := (List.of_mem_zip hx).1
  exact ⟨hs.1.step hkeys (hfor x.1 hr) hstep, hs.2.step hs.1 (hset x.1 hr) hstep⟩

end SuiteTidy.Cache
