import SuiteTidy.Proofs.Cache.Levels
import SuiteTidy.Proofs.Files.Safe

/-!
Requests to a cache. Waiting moves the clock, and a restart opens the directory again with nothing
in memory. One relation says all that serving a request can do to what a cache holds: every request
is served, and with a step of that relation.
-/

set_option autoImplicit false
set_option relaxedAutoImplicit false

namespace SuiteTidy.Cache

inductive Request where
  | get (key : String) (useMemory : Bool)
  | set (key : String) (value hours : Datum) (useMemory : Bool)
  | delete (key : String)
  | clear
  | cleanup
  | wait (micros : Nat)
  | restart (hours : Datum)

def Request.key? : Request → Option String
  | .get key _ => some key
  | .set key _ _ _ => some key
  | .delete key => some key
  | _ => none

/-- What comes back: a value or nothing, whether it worked, how many entries were removed, nothing
at all, or a fault. -/
inductive Answer where
  | value (found : Option Datum)
  | success (worked : Bool)
  | count (n : Nat)
  | done
  | fault (f : Fault)

def serve (c : Cache) : Request → Work (Cache × Answer)
  | .get key useMemory => do
    match ← Work.attempt (c.get key useMemory) with
    | .ok (c', found) => return (c', .value found)
    | .error f => return (c, .fault f)
  | .set key value hours useMemory => do
    let (c', worked) ← c.set key value hours useMemory
    return (c', .success worked)
  | .delete key => do
    match ← c.delete key with
    | (c', .ok worked) => return (c', .success worked)
    | (c', .error f) => return (c', .fault f)
  | .clear => do
    let (c', worked) ← c.clear
    return (c', .success worked)
  | .cleanup => do
    let (c', n) ← c.cleanup
    return (c', .count n)
  | .wait micros => do
    modify fun w => { w with now := w.now.later micros }
    return (c, .done)
  | .restart hours => do return (← openAt c.folder hours, .done)

/-- When a value expires that is kept from now on for some hours, or if none are given, for the
standard ones. -/
def expiresAt? (now : Moment) (standard : Datum) : Datum → Option Moment
  | .null => standard.number?.bind (expiry? now)
  | hours => hours.number?.bind (expiry? now)

private theorem bind_hoursOf (c : Cache) (hours : Datum) (now : Moment) :
    (c.hoursOf hours).bind (expiry? now) = expiresAt? now c.hours hours := by
  cases hours <;> rfl

namespace View

def swept (v : View) : View :=
  { v with
    memory := fun key => (v.memory key).filter fun e => !e.isExpired v.now
    files := fun name => (v.files name).filter fun e => !e.isExpired v.now }

def put (v : View) (e : CacheEntry) (useMemory : Bool) : View :=
  if useMemory then (v.store e.key e).keep e.key e else v.store e.key e

theorem put_now (v : View) (e : CacheEntry) (useMemory : Bool) :
    (v.put e useMemory).now = v.now := by
  cases useMemory <;> rfl

theorem put_hours (v : View) (e : CacheEntry) (useMemory : Bool) :
    (v.put e useMemory).hours = v.hours := by
  cases useMemory <;> rfl

theorem put_files (v : View) (e : CacheEntry) (useMemory : Bool) (name : String) :
    (v.put e useMemory).files name = if name = nameOf e.key then some e else v.files name := by
  cases useMemory <;> rfl

private theorem discard_of_none {v : View} {key : String} (h : v.files (nameOf key) = none) :
    v.discard key = v := by
  refine View.ext rfl rfl rfl (funext fun name => ?_)
  by_cases hname : name = nameOf key
  · simp [discard, hname, h]
  · simp [discard, hname]

private theorem sift_singleton {v : View} {key : String} {e : CacheEntry}
    {stays : CacheEntry → Bool} (h : v.files (nameOf key) = some e) :
    v.sift [nameOf key] stays = if stays e then v else v.discard key := by
  split_ifs with hstays
  · refine View.ext rfl rfl rfl (funext fun name => ?_)
    by_cases hname : name = nameOf key
    · simp [sift, hname, h, Option.filter, hstays]
    · simp [sift, hname]
  · refine View.ext rfl rfl rfl (funext fun name => ?_)
    by_cases hname : name = nameOf key
    · simp [sift, discard, hname, h, Option.filter, hstays]
    · simp [sift, discard, hname]

private theorem sift_cons {v : View} {name : String} {names : List String}
    {stays : CacheEntry → Bool} (h : name ∉ names) :
    (v.sift [name] stays).sift names stays = v.sift (name :: names) stays := by
  refine View.ext rfl rfl rfl (funext fun other => ?_)
  by_cases hname : other = name
  · simp [sift, hname, h]
  · simp [sift, hname]

def recalled (v : View) (key : String) (useMemory : Bool) : Option CacheEntry :=
  if useMemory then v.memory key else none

end View

theorem memory_of_recalled {v : View} {key : String} {useMemory : Bool} {e : CacheEntry}
    (h : v.recalled key useMemory = some e) : useMemory = true ∧ v.memory key = some e := by
  rw [View.recalled] at h
  split_ifs at h with hused
  exact ⟨hused, h⟩

theorem memory_of_unrecalled {v : View} {key : String} (h : v.recalled key true = none) :
    v.memory key = none := by
  rwa [View.recalled, if_pos rfl] at h

def met (e : CacheEntry) : CacheEntry := { e with hits := e.hits + 1 }

/-- What serving a request can do to what a cache holds. -/
inductive Step (v : View) : Request → Answer → View → Prop
  | recalled {key : String} {useMemory : Bool} {e : CacheEntry}
      (hmemory : v.recalled key useMemory = some e) (hlive : e.isExpired v.now = false) :
      Step v (.get key useMemory) (.value (some e.value)) (v.keep key (met e))
  | lapsed {key : String} {useMemory : Bool} {e : CacheEntry}
      (hmemory : v.recalled key useMemory = some e) (hexpired : e.isExpired v.now = true) :
      Step v (.get key useMemory) (.value none) (v.drop key)
  | loaded {key : String} {useMemory : Bool} {e : CacheEntry}
      (hmemory : v.recalled key useMemory = none) (hfile : v.files (nameOf key) = some e)
      (hlive : e.isExpired v.now = false) :
      Step v (.get key useMemory) (.value (some e.value))
        (if useMemory then v.keep key (met e) else v)
  | lapsedFile {key : String} {useMemory : Bool} {e : CacheEntry}
      (hmemory : v.recalled key useMemory = none) (hfile : v.files (nameOf key) = some e)
      (hexpired : e.isExpired v.now = true) :
      Step v (.get key useMemory) (.value none) (v.discard key)
  | absent {key : String} {useMemory : Bool} (hmemory : v.recalled key useMemory = none)
      (hfile : v.files (nameOf key) = none) (hkey : ¬Overlong key) :
      Step v (.get key useMemory) (.value none) v
  | unnamed {key : String} {useMemory : Bool} {f : Fault} (hkey : Overlong key) :
      Step v (.get key useMemory) (.fault f) v
  | stored {key : String} {value hours : Datum} {useMemory : Bool} {expiresAt : Moment}
      (hkey : Storable key) (hexpiry : expiresAt? v.now v.hours hours = some expiresAt) :
      Step v (.set key value hours useMemory) (.success true)
        (v.put { key, value, createdAt := v.now, expiresAt } useMemory)
  | refused {key : String} {value hours : Datum} {useMemory : Bool}
      (hcause : expiresAt? v.now v.hours hours = none ∨ ¬Storable key) :
      Step v (.set key value hours useMemory) (.success false) v
  | deleted {key : String} (hkey : ¬Overlong key) :
      Step v (.delete key) (.success true) ((v.drop key).discard key)
  | undeleted {key : String} {f : Fault} (hkey : Overlong key) :
      Step v (.delete key) (.fault f) (v.drop key)
  | cleared :
      Step v .clear (.success true) { v with memory := fun _ => none, files := fun _ => none }
  | cleaned {n : Nat} : Step v .cleanup (.count n) v.swept
  | waited {micros : Nat} : Step v (.wait micros) .done { v with now := v.now.later micros }
  | restarted {hours : Datum} :
      Step v (.restart hours) .done { v with hours, memory := fun _ => none }

/-! Serving one request. -/

def Serves (place : Place) (c : Cache) (w : Workspace) (v : View) (r : Request) : Prop :=
  ∃ c' a w' v', c.serve r w = (.ok (c', a), w') ∧ Step v r a v' ∧ Shows place c' w' v'

section Serving

variable {place : Place} {c : Cache} {w : Workspace} {v : View}

def Looks (place : Place) (c : Cache) (w : Workspace) (v : View) (key : String) (useMemory : Bool) :
    Prop :=
  ∃ c' found w' v', c.get key useMemory w = (.ok (c', found), w') ∧
    Step v (.get key useMemory) (.value found) v' ∧ Shows place c' w' v'

private theorem Shows.recalled_eq (h : Shows place c w v) (key : String) (useMemory : Bool) :
    (if useMemory = true then c.known? key else none) = v.recalled key useMemory := by
  rw [h.known key]
  rfl

theorem Shows.remove (h : Shows place c w v) {key : String} {e : CacheEntry}
    (he : v.files (nameOf key) = some e) :
    ∃ w', Work.change (fun t => t.removeFile (c.fileOf key)) w = (.ok (), w') ∧
      Shows place c w' (v.discard key) := by
  obtain ⟨t, hremoved, hshows⟩ := h.removeFile_fileOf he
  exact ⟨{ w with files := t }, Work.change_ok hremoved, hshows⟩

private theorem Shows.get_recalled (h : Shows place c w v) {key : String} {useMemory : Bool}
    {e : CacheEntry} (hmemory : v.recalled key useMemory = some e) :
    Looks place c w v key useMemory := by
  have hkey : Storable key := h.keyed key e (memory_of_recalled hmemory).2
  rw [Looks, Cache.get, Work.bind_ok (Work.now_apply w), h.recalled_eq, hmemory, h.now]
  dsimp only
  cases hexpired : e.isExpired v.now with
  | true => exact ⟨_, _, _, _, rfl, .lapsed hmemory hexpired, h.forget key⟩
  | false => exact ⟨_, _, _, _, rfl, .recalled hmemory hexpired, h.remember hkey (met e)⟩

private theorem Shows.get_unrecalled (h : Shows place c w v) {key : String} {useMemory : Bool}
    (hmemory : v.recalled key useMemory = none) (hkey : ¬Overlong key) :
    Looks place c w v key useMemory := by
  have hexists : Work.pathExists (c.fileOf key) w = (.ok (v.files (nameOf key)).isSome, w) :=
    Work.ask_ok (h.exists_fileOf hkey)
  rw [Looks, Cache.get, Work.bind_ok (Work.now_apply w), h.recalled_eq, hmemory, h.now]
  dsimp only
  rw [Work.bind_ok hexists]
  cases hfile : v.files (nameOf key) with
  | none => exact ⟨_, _, _, _, rfl, .absent hmemory hfile hkey, h⟩
  | some e =>
    rw [Option.isSome_some, if_pos rfl, Work.bind_ok (h.readEntry_fileOf hfile)]
    dsimp only
    cases hexpired : e.isExpired v.now with
    | true =>
      obtain ⟨w', hremoval, hshows⟩ := h.remove hfile
      rw [if_pos rfl, Work.bind_ok (Work.orElse_ok hremoval ())]
      exact ⟨_, _, _, _, rfl, .lapsedFile hmemory hfile hexpired, hshows⟩
    | false =>
      refine ⟨_, _, _, _, rfl, .loaded hmemory hfile hexpired, ?_⟩
      cases useMemory with
      | false => exact h
      | true => exact h.remember (h.storable hfile) (met e)

theorem Shows.get_overlong (h : Shows place c w v) {key : String} (useMemory : Bool)
    (hkey : Overlong key) : ∃ f, c.get key useMemory w = (.error f, w) := by
  have hunknown : v.recalled key useMemory = none := by
    rw [Option.eq_none_iff_forall_ne_some]
    exact fun e he => (h.keyed key e (memory_of_recalled he).2).not_overlong hkey
  have hexists : Work.pathExists (c.fileOf key) w = (.error _, w) :=
    Work.ask_error (h.exists_of_overlong hkey)
  rw [Cache.get, Work.bind_ok (Work.now_apply w), h.recalled_eq, hunknown]
  exact ⟨_, Work.bind_error hexists _⟩

theorem Shows.looks (h : Shows place c w v) {key : String} (useMemory : Bool)
    (hkey : ¬Overlong key) : Looks place c w v key useMemory := by
  cases hmemory : v.recalled key useMemory with
  | none => exact h.get_unrecalled hmemory hkey
  | some e => exact h.get_recalled hmemory

private theorem Shows.serve_get (h : Shows place c w v) (key : String) (useMemory : Bool) :
    Serves place c w v (.get key useMemory) := by
  by_cases hkey : Overlong key
  · obtain ⟨f, hget⟩ := h.get_overlong useMemory hkey
    refine ⟨c, .fault f, w, v, ?_, .unnamed hkey, h⟩
    rw [serve, Work.bind_ok (Work.attempt_apply _ w), hget]
    rfl
  · obtain ⟨c', found, w', v', hget, hstep, hshows⟩ := h.looks useMemory hkey
    refine ⟨c', .value found, w', v', ?_, hstep, hshows⟩
    rw [serve, Work.bind_ok (Work.attempt_apply _ w), hget]
    rfl

private theorem Shows.serve_set (h : Shows place c w v) (key : String) (value hours : Datum)
    (useMemory : Bool) : Serves place c w v (.set key value hours useMemory) := by
  have hexpiry : (c.hoursOf hours).bind (expiry? w.now) = expiresAt? v.now v.hours hours := by
    rw [bind_hoursOf, h.now, h.hours]
  have hrefused (hset : c.set key value hours useMemory w = (.ok (c, false), w))
      (hcause : expiresAt? v.now v.hours hours = none ∨ ¬Storable key) :
      Serves place c w v (.set key value hours useMemory) := by
    refine ⟨c, .success false, w, v, ?_, .refused hcause, h⟩
    rw [serve, Work.bind_ok hset]
    rfl
  cases hmoment : expiresAt? v.now v.hours hours with
  | none =>
    refine hrefused ?_ (.inl hmoment)
    rw [Cache.set, Work.bind_ok (Work.now_apply w), hexpiry, hmoment]
    rfl
  | some expiresAt =>
    by_cases hkey : Storable key
    · let e : CacheEntry := { key, value, createdAt := v.now, expiresAt }
      obtain ⟨t, hwrite, hshows⟩ := h.writeContent_fileOf hkey e
      let c' : Cache := if useMemory then c.remember key e else c
      have hset : c.set key value hours useMemory w = (.ok (c', true), { w with files := t }) := by
        rw [Cache.set, Work.bind_ok (Work.now_apply w), hexpiry, hmoment]
        dsimp only
        have hsame : ({ key, value, createdAt := w.now, expiresAt } : CacheEntry) = e := by
          rw [h.now]
        rw [Work.bind_ok (Work.files_apply w), hsame, hwrite]
        rfl
      refine ⟨c', .success true, { w with files := t }, v.put e useMemory, ?_,
        .stored hkey hmoment, ?_⟩
      · rw [serve, Work.bind_ok hset]
        rfl
      · cases useMemory with
        | false => exact hshows
        | true => exact hshows.remember hkey e
    · obtain ⟨f, hwrite⟩ := h.writeContent_refused hkey
        (.packed (CacheEntry.pack { key, value, createdAt := w.now, expiresAt }))
      refine hrefused ?_ (.inr hkey)
      rw [Cache.set, Work.bind_ok (Work.now_apply w), hexpiry, hmoment]
      dsimp only
      rw [Work.bind_ok (Work.files_apply w), hwrite]
      rfl

private theorem Shows.serve_delete (h : Shows place c w v) (key : String) :
    Serves place c w v (.delete key) := by
  have hforget := h.forget key
  by_cases hkey : Overlong key
  · have hexists : Work.pathExists (c.fileOf key) w = (.error _, w) :=
      Work.ask_error (h.exists_of_overlong hkey)
    refine ⟨c.forget key, .fault (.file (.nameTooLong (c.fileOf key))), w, v.drop key, ?_,
      .undeleted hkey, hforget⟩
    rw [serve, Cache.delete, bind_assoc, Work.bind_ok (Work.attempt_apply _ w), Cache.removal,
      Work.bind_error hexists]
    rfl
  · have hexists : Work.pathExists (c.fileOf key) w = (.ok (v.files (nameOf key)).isSome, w) :=
      Work.ask_ok (h.exists_fileOf hkey)
    cases hfile : v.files (nameOf key) with
    | none =>
      have hgone : (v.drop key).discard key = v.drop key := View.discard_of_none hfile
      refine ⟨c.forget key, .success true, w, (v.drop key).discard key, ?_, .deleted hkey, ?_⟩
      · rw [serve, Cache.delete, bind_assoc, Work.bind_ok (Work.attempt_apply _ w),
          Cache.removal, Work.bind_ok hexists, hfile]
        rfl
      · rw [hgone]
        exact hforget
    | some e =>
      obtain ⟨w', hremoval, hshows⟩ := hforget.remove hfile
      refine ⟨c.forget key, .success true, w', _, ?_, .deleted hkey, hshows⟩
      rw [serve, Cache.delete, bind_assoc, Work.bind_ok (Work.attempt_apply _ w),
        Cache.removal, Work.bind_ok hexists, hfile, Option.isSome_some, if_pos rfl,
        Work.orElse_ok (Work.bind_ok hremoval _)]
      rfl

/-! Looking through all files. -/

private theorem Shows.removeAll (h : Shows place c w v) {keys : List String}
    (hdistinct : (keys.map nameOf).Nodup) (hfiles : ∀ key ∈ keys, v.files (nameOf key) ≠ none) :
    ∃ w', (forIn (keys.map c.fileOf) PUnit.unit fun file _ => do
        Work.change fun t => t.removeFile file
        pure (ForInStep.yield PUnit.unit) : Work PUnit) w = (.ok .unit, w') ∧
      Shows place c w' (v.sift (keys.map nameOf) fun _ => false) := by
  induction keys generalizing w v with
  | nil => exact ⟨w, rfl, by simpa [View.sift] using h⟩
  | cons key keys ih =>
    rw [List.map_cons, List.nodup_cons] at hdistinct
    obtain ⟨e, hfile⟩ := Option.ne_none_iff_exists'.mp (hfiles key List.mem_cons_self)
    obtain ⟨w₁, hremoval, hshows⟩ := h.remove hfile
    have hrest : ∀ other ∈ keys, (v.discard key).files (nameOf other) ≠ none := by
      intro other hother
      have hne : nameOf other ≠ nameOf key := by
        intro heq
        exact hdistinct.1 (heq ▸ List.mem_map_of_mem hother)
      simpa [View.discard, hne] using hfiles other (List.mem_cons_of_mem _ hother)
    obtain ⟨w', hloop, hend⟩ := ih hshows hdistinct.2 hrest
    refine ⟨w', ?_, ?_⟩
    · rw [List.map_cons, List.forIn_cons, bind_assoc, Work.bind_ok hremoval]
      exact hloop
    · rw [List.map_cons, ← View.sift_cons hdistinct.1, View.sift_singleton hfile]
      exact hend

private theorem Shows.cleanFile (h : Shows place c w v) (now : Moment) {key : String}
    (hfile : v.files (nameOf key) ≠ none) :
    ∃ n w', Cache.cleanFile now (c.fileOf key) w = (.ok n, w') ∧
      Shows place c w' (v.sift [nameOf key] fun e => !e.isExpired now) := by
  obtain ⟨e, he⟩ := Option.ne_none_iff_exists'.mp hfile
  rw [Cache.cleanFile, Work.bind_ok (h.readEntry_fileOf he), View.sift_singleton he]
  dsimp only
  cases hexpired : e.isExpired now with
  | false => exact ⟨0, w, rfl, h⟩
  | true =>
    obtain ⟨w', hremoval, hshows⟩ := h.remove he
    rw [if_pos rfl, Work.orElse_ok (Work.bind_ok hremoval _)]
    exact ⟨1, _, rfl, hshows⟩

private theorem Shows.cleanAll (h : Shows place c w v) (now : Moment) {keys : List String}
    (hdistinct : (keys.map nameOf).Nodup) (hfiles : ∀ key ∈ keys, v.files (nameOf key) ≠ none) :
    ∃ counts w', (keys.map c.fileOf).mapM (Cache.cleanFile now) w = (.ok counts, w') ∧
      Shows place c w' (v.sift (keys.map nameOf) fun e => !e.isExpired now) := by
  induction keys generalizing w v with
  | nil => exact ⟨[], w, rfl, by simpa [View.sift] using h⟩
  | cons key keys ih =>
    rw [List.map_cons, List.nodup_cons] at hdistinct
    obtain ⟨n, w', hclean, hshows⟩ := h.cleanFile now (hfiles key List.mem_cons_self)
    have hrest : ∀ other ∈ keys,
        (v.sift [nameOf key] fun e => !e.isExpired now).files (nameOf other) ≠ none := by
      intro other hother
      have hne : nameOf other ≠ nameOf key := by
        intro heq
        exact hdistinct.1 (heq ▸ List.mem_map_of_mem hother)
      simpa [View.sift, hne] using hfiles other (List.mem_cons_of_mem _ hother)
    obtain ⟨counts, w'', hloop, hend⟩ := ih hshows hdistinct.2 hrest
    refine ⟨n :: counts, w'', ?_, ?_⟩
    · rw [List.map_cons, List.mapM_cons, Work.bind_ok hclean, Work.bind_ok hloop]
      rfl
    · rw [List.map_cons, ← View.sift_cons hdistinct.1]
      exact hend

private theorem Shows.serve_clear (h : Shows place c w v) : Serves place c w v .clear := by
  obtain ⟨keys, hlist, hdistinct, hmem⟩ := h.filesOf
  have hfiles : ∀ key ∈ keys, v.files (nameOf key) ≠ none := fun key hkey =>
    (hmem _).mp (List.mem_map_of_mem hkey)
  obtain ⟨w', hloop, hshows⟩ := h.removeAll hdistinct hfiles
  refine ⟨{ c with memory := [] }, .success true, w', _, ?_, .cleared, ?_⟩
  · have hremoved : c.removeFiles w = (.ok true, w') := by
      rw [Cache.removeFiles, Work.bind_ok hlist, Work.bind_ok hloop]
      rfl
    rw [serve, Cache.clear, bind_assoc, Work.bind_ok (Work.orElse_ok hremoved false)]
    rfl
  · have hnone : (fun name => if name ∈ keys.map nameOf then (v.files name).filter fun _ => false
        else v.files name) = fun _ => none := by
      funext name
      split_ifs with hname
      · cases v.files name <;> rfl
      · simpa [hmem] using hname
    have hempty := hshows.empty c.hours
    simp only [View.sift, hnone] at hempty
    rw [← h.hours]
    exact hempty

theorem Shows.cleanup (h : Shows place c w v) :
    ∃ c' n w', c.cleanup w = (.ok (c', n), w') ∧ Shows place c' w' v.swept := by
  obtain ⟨keys, hlist, hdistinct, hmem⟩ := h.filesOf
  have hfiles : ∀ key ∈ keys, v.files (nameOf key) ≠ none := fun key hkey =>
    (hmem _).mp (List.mem_map_of_mem hkey)
  obtain ⟨counts, w', hloop, hshows⟩ := h.cleanAll v.now hdistinct hfiles
  have hswept := hshows.filter fun e => !e.isExpired v.now
  let c' : Cache := { c with memory := c.memory.filter fun x => !x.2.isExpired v.now }
  have hcleanup : ∃ n, c.cleanup w = (.ok (c', n), w') := by
    rw [Cache.cleanup, Work.bind_ok (Work.now_apply w), h.now, Work.bind_ok hlist,
      Work.bind_ok hloop]
    exact ⟨_, rfl⟩
  obtain ⟨n, hcleanup⟩ := hcleanup
  refine ⟨c', n, w', hcleanup, ?_⟩
  have hall : (fun name => if name ∈ keys.map nameOf then
      (v.files name).filter fun e => !e.isExpired v.now else v.files name) =
      fun name => (v.files name).filter fun e => !e.isExpired v.now := by
    funext name
    split_ifs with hname
    · rfl
    · have hnone : v.files name = none := by simpa [hmem] using hname
      rw [hnone]
      rfl
  simp only [View.sift, hall] at hswept
  exact hswept

private theorem Shows.serve_cleanup (h : Shows place c w v) : Serves place c w v .cleanup := by
  obtain ⟨c', n, w', hcleanup, hshows⟩ := h.cleanup
  refine ⟨c', .count n, w', v.swept, ?_, .cleaned, hshows⟩
  rw [Cache.serve, Work.bind_ok hcleanup]
  rfl

private theorem Shows.serve_restart (h : Shows place c w v) (hours : Datum) :
    Serves place c w v (.restart hours) := by
  have hdir : w.files.isDir c.folder = .ok true :=
    FileTree.isDir_eq_true_iff.mpr ⟨place, h.located, h.directory⟩
  obtain ⟨words, hmake⟩ := FileTree.acts_makeDirectoriesTo c.folder c.folder.parts.length w
  simp only [FileTree.makeDirectoriesTo_of_isDir hdir] at hmake
  refine ⟨{ folder := c.folder, hours }, .done, { w with printed := w.printed ++ words }, _, ?_,
    .restarted, ?_⟩
  · rw [serve, Cache.openAt, bind_assoc, Work.makeDirectories, Work.bind_ok hmake]
    rfl
  · have hempty := (h.empty hours).congr { w with printed := w.printed ++ words } rfl
    rw [← h.now]
    exact hempty

theorem Shows.serve (h : Shows place c w v) (r : Request) : Serves place c w v r := by
  cases r with
  | get key useMemory => exact h.serve_get key useMemory
  | set key value hours useMemory => exact h.serve_set key value hours useMemory
  | delete key => exact h.serve_delete key
  | clear => exact h.serve_clear
  | cleanup => exact h.serve_cleanup
  | wait micros =>
    have hlater := h.congr { w with now := w.now.later micros } rfl
    refine ⟨c, .done, { w with now := w.now.later micros }, _, rfl, .waited, ?_⟩
    rw [← h.now]
    exact hlater
  | restart hours => exact h.serve_restart hours

end Serving

end SuiteTidy.Cache
