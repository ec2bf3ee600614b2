import SuiteTidy.Proofs.Cache.Ledger

/-!
A cache with a directory behind it does what a map with expiry does. After any run, asking for a key
gives the value that was set last under it, unless that was removed or has expired. Setting a value
without success changes nothing, and cleaning up leaves no expired entry at either level and
takes nothing away that could still be found.
-/

set_option autoImplicit false
set_option relaxedAutoImplicit false

namespace SuiteTidy.Cache

/-! Keys that are names of files. -/

/-- A key that can stand in the name of a file as it is. -/
def FileName (key : String) : Prop := '/' ∉ key.toList ∧ '\\' ∉ key.toList ∧ Storable key

instance (key : String) : Decidable (FileName key) := inferInstanceAs (Decidable (_ ∧ _))

private theorem flatName_of_fileName {key : String} (h : FileName key) :
    Path.flatName key = key := by
  have hsame : key.toList.map (fun c => if c = '/' || c = '\\' then '_' else c) = key.toList := by
    refine (List.map_congr_left fun c hc => ?_).trans (List.map_id _)
    have hslash : c ≠ '/' := fun heq => h.1 (heq ▸ hc)
    have hback : c ≠ '\\' := fun heq => h.2.1 (heq ▸ hc)
    simp [hslash, hback]
  rw [Path.flatName, hsame, String.ofList_toList]

private theorem apart_fileNames : Apart {key | FileName key} where
  storable _ h := h.2.2
  injective key hkey other hother heq := by
    rw [nameOf_inj, flatName_of_fileName hkey, flatName_of_fileName hother] at heq
    exact heq

/-! The refinement. -/

structure Unexpired (c : Cache) (w : Workspace) : Prop where
  memory : ∀ x ∈ c.memory, x.2.isExpired w.now = false
  files : ∃ paths, c.filesOf w = (.ok paths, w) ∧
    ∀ p ∈ paths, ∃ e, readEntry p w = (.ok (some e), w) ∧ e.isExpired w.now = false

private theorem Shows.unexpired {place : Place} {c : Cache} {w : Workspace} {v : View}
    (h : Shows place c w v.swept) : Unexpired c w := by
  have hlive {e : CacheEntry} {x : Option CacheEntry}
      (he : x.filter (fun e => !e.isExpired v.now) = some e) : e.isExpired w.now = false := by
    have hnow : w.now = v.now := h.now
    rw [hnow]
    simpa using (Option.filter_eq_some_iff.mp he).2
  constructor
  · rintro ⟨key, e⟩ hx
    have hknown := (known_eq_some_iff h.distinct).mpr hx
    rw [h.known] at hknown
    exact hlive hknown
  · obtain ⟨keys, hlist, -, hmem⟩ := h.filesOf
    refine ⟨_, hlist, fun p hp => ?_⟩
    obtain ⟨key, hkey, rfl⟩ := List.mem_map.mp hp
    obtain ⟨e, he⟩ := Option.ne_none_iff_exists'.mp ((hmem _).mp (List.mem_map_of_mem hkey))
    exact ⟨e, h.readEntry_fileOf he, hlive he⟩

private theorem eq_of_set_refused {c c' : Cache} {w w' : Workspace} {key : String}
    {value hours : Datum} {useMemory : Bool}
    (h : c.set key value hours useMemory w = (.ok (c', false), w')) : c' = c ∧ w' = w := by
  have hsame {r : Work (Cache × Bool)} (hr : r w = (.ok (c, false), w))
      (hrun : r w = (.ok (c', false), w')) : c' = c ∧ w' = w := by
    obtain ⟨hresult, rfl⟩ := Prod.mk.inj (hr.symm.trans hrun)
    exact ⟨(Prod.mk.inj (Except.ok.inj hresult)).1.symm, rfl⟩
  rw [Cache.set, Work.bind_ok (Work.now_apply w)] at h
  cases hexpiry : (c.hoursOf hours).bind (expiry? w.now) with
  | none =>
    rw [hexpiry] at h
    exact hsame rfl h
  | some expiresAt =>
    rw [hexpiry] at h
    dsimp only at h
    rw [Work.bind_ok (Work.files_apply w)] at h
    cases hwrite : w.files.writeContent (c.fileOf key)
        (.packed (CacheEntry.pack { key, value, createdAt := w.now, expiresAt })) with
    | error f =>
      rw [hwrite] at h
      exact hsame rfl h
    | ok files =>
      rw [hwrite] at h
      cases (Prod.mk.inj (Except.ok.inj (Prod.mk.inj h).1)).2

structure Keeps (c : Cache) (w : Workspace) (g : Ledger) : Prop where
  get : ∀ key, FileName key → ∀ useMemory, c.shown key useMemory w = .ok (g.current key)
  refuse : ∀ key value hours useMemory c' w',
    c.set key value hours useMemory w = (.ok (c', false), w') → c' = c ∧ w' = w
  cleanup : ∃ c' n w', c.cleanup w = (.ok (c', n), w') ∧ Unexpired c' w' ∧
    ∀ key, FileName key → ∀ useMemory, c'.shown key useMemory w' = .ok (g.current key)

private theorem Shows.shown_current {place : Place} {c : Cache} {w : Workspace} {v : View}
    {g : Ledger} (h : Shows place c w v) (hfiles : Agrees {key | FileName key} v g)
    (hmemory : Mirrors {key | FileName key} v g) (key : String) (hkey : FileName key)
    (useMemory : Bool) : c.shown key useMemory w = .ok (g.current key) := by
  rw [h.shown_eq hkey.2.2.not_overlong, hmemory.answer hfiles hkey]

/-- A run of a cache in which values are set in memory too refines a map with expiry. -/
theorem serveAll_keeps {c : Cache} {w : Workspace} (h : Fresh c w) {requests : List Request}
    (hkeys : For {key | FileName key} requests) (hset : ∀ r ∈ requests, r.SetsMemory) :
    ∃ c' answers w', c.serveAll requests w = (.ok (c', answers), w') ∧
      answers.length = requests.length ∧
      Keeps c' w' ((Ledger.opened w.now c.hours).after (requests.zip answers)) := by
  obtain ⟨place, hblank⟩ := h.shows
  obtain ⟨c', answers, w', v, hserve, hlength, hruns, hshows⟩ := hblank.serveAll requests
  have hfiles := hruns.agrees apart_fileNames hkeys (agrees_blank _ w.now c.hours)
  have hmemory := hruns.mirrors apart_fileNames hkeys hset (agrees_blank _ w.now c.hours)
    (mirrors_blank _ w.now c.hours)
  refine ⟨c', answers, w', hserve, hlength, ?_⟩
  constructor
  · exact hshows.shown_current hfiles hmemory
  · intro key value hours useMemory c'' w'' hrefused
    exact eq_of_set_refused hrefused
  · obtain ⟨c'', n, w'', hcleanup, hswept⟩ := hshows.cleanup
    have hstep : Step v .cleanup (.count n) v.swept := .cleaned
    have hsets : Request.cleanup.SetsMemory := trivial
    have hnokey : ∀ key ∈ Request.cleanup.key?, key ∈ {key | FileName key} := by
      intro key hkey
      cases hkey
    exact ⟨c'', n, w'', hcleanup, hswept.unexpired,
      hswept.shown_current (hfiles.step apart_fileNames hnokey hstep)
        (hmemory.step hfiles hsets hstep)⟩

/-- A value is set, set again, asked for, loaded after a restart and cleaned up after its time. -/
def dailyRun : List Request :=
  [.set "k" (.int 1) .null true, .set "k" (.int 2) (.int 2) true, .get "k" true, .restart .null,
    .set "k" (.int 3) (.int 100000000) true, .get "k" true, .wait 7200000001, .cleanup]

theorem serveAll_keeps_dailyRun :
    Fresh emptyCache emptyRoom ∧ For {key | FileName key} dailyRun ∧
      (∀ r ∈ dailyRun, r.SetsMemory) ∧
      ∃ c' answers w', emptyCache.serveAll dailyRun emptyRoom = (.ok (c', answers), w') ∧
        answers.length = dailyRun.length ∧
        Keeps c' w' ((Ledger.opened emptyRoom.now emptyCache.hours).after
          (dailyRun.zip answers)) := by
  have hkey : FileName "k" := by decide +kernel
  have hkeys : For {key | FileName key} dailyRun := by
    intro r hr
    simp only [dailyRun, List.mem_cons, List.not_mem_nil, or_false] at hr
    rcases hr with rfl | rfl | rfl | rfl | rfl | rfl | rfl | rfl <;> simp [Request.key?, hkey]
  have hset : ∀ r ∈ dailyRun, r.SetsMemory := by
    simp [dailyRun, Request.SetsMemory]
  exact ⟨fresh_emptyCache, hkeys, hset, serveAll_keeps fresh_emptyCache hkeys hset⟩

end SuiteTidy.Cache
