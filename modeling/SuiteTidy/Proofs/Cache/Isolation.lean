import SuiteTidy.Proofs.Cache.Run

/-!
The keys of a cache, each by itself. An entry was set under a key with the same file name as the one
that it is found by, and a request for a key leaves the entries of keys with other file names as
they are. So keys are isolated from each other exactly if they can be looked for and no two of them
that can be stored have the same file name.
-/

set_option autoImplicit false
set_option relaxedAutoImplicit false

namespace SuiteTidy.Cache

/-- A value was set under a key in the course of a run. -/
def SetUnder (history : List (Request × Answer)) (key : String) (value : Datum) : Prop :=
  ∃ hours useMemory, (Request.set key value hours useMemory, Answer.success true) ∈ history

/-- In every run with some keys, asking for one of them gives nothing or a value that was set under
this key, and no request for another one changes what it gives. -/
def Isolated (keys : Set String) (c : Cache) (w : Workspace) : Prop :=
  ∀ requests, For keys requests →
    ∃ c' answers w', c.serveAll requests w = (.ok (c', answers), w') ∧
      ∀ key ∈ keys, ∀ useMemory,
        (∃ found, c'.shown key useMemory w' = .ok found ∧
          ∀ value ∈ found, SetUnder (requests.zip answers) key value) ∧
        ∀ other ∈ keys, other ≠ key → ∀ r : Request, r.key? = some other →
          ∃ c'' a w'', c'.serve r w' = (.ok (c'', a), w'') ∧
            c''.shown key useMemory w'' = c'.shown key useMemory w'

/-! Where entries come from. -/

section Tracing

variable {v v' : View} {r : Request} {a : Answer} {history : List (Request × Answer)}

private theorem Step.files_source (h : Step v r a v') {name : String} {e : CacheEntry}
    (he : v'.files name = some e) :
    v.files name = some e ∨
      ∃ key, nameOf key = name ∧ SetUnder [(r, a)] key e.value := by
  cases h with
  | recalled => exact .inl he
  | lapsed => exact .inl he
  | @loaded key useMemory =>
    cases useMemory with
    | false => exact .inl he
    | true => exact .inl he
  | @lapsedFile key =>
    simp only [View.discard] at he
    split_ifs at he
    exact .inl he
  | absent => exact .inl he
  | unnamed => exact .inl he
  | @stored key value hours useMemory =>
    rw [View.put_files] at he
    split_ifs at he with hname
    · obtain rfl := Option.some.inj he
      exact .inr ⟨key, hname.symm, hours, useMemory, List.mem_singleton_self _⟩
    · exact .inl he
  | refused => exact .inl he
  | @deleted key =>
    simp only [View.discard] at he
    split_ifs at he
    exact .inl he
  | undeleted => exact .inl he
  | cleared => cases he
  | cleaned => exact .inl (Option.filter_eq_some_iff.mp he).1
  | waited => exact .inl he
  | restarted => exact .inl he

private theorem Step.memory_source (h : Step v r a v') {key : String} {e : CacheEntry}
    (he : v'.memory key = some e) :
    (∃ x, x.value = e.value ∧ (v.memory key = some x ∨ v.files (nameOf key) = some x)) ∨
      SetUnder [(r, a)] key e.value := by
  have hold (hmemory : v.memory key = some e) : (∃ x, x.value = e.value ∧
      (v.memory key = some x ∨ v.files (nameOf key) = some x)) ∨ SetUnder [(r, a)] key e.value :=
    .inl ⟨e, rfl, .inl hmemory⟩
  cases h with
  | @recalled other useMemory x hmemory =>
    simp only [View.keep] at he
    split_ifs at he with hsame
    · obtain rfl := Option.some.inj he
      exact .inl ⟨x, rfl, .inl (hsame ▸ (memory_of_recalled hmemory).2)⟩
    · exact hold he
  | @lapsed other =>
    simp only [View.drop] at he
    split_ifs at he
    exact hold he
  | @loaded other useMemory x hmemory hfile =>
    cases useMemory with
    | false => exact hold he
    | true =>
      simp only [View.keep, if_true] at he
      split_ifs at he with hsame
      · obtain rfl := Option.some.inj he
        exact .inl ⟨x, rfl, .inr (hsame ▸ hfile)⟩
      · exact hold he
  | lapsedFile => exact hold he
  | absent => exact hold he
  | unnamed => exact hold he
  | @stored other value hours useMemory =>
    cases useMemory with
    | false => exact hold he
    | true =>
      simp only [View.put, View.keep, View.store, if_true] at he
      split_ifs at he with hsame
      · obtain rfl := Option.some.inj he
        obtain rfl : key = other := hsame
        exact .inr ⟨hours, true, List.mem_singleton_self _⟩
      · exact hold he
  | refused => exact hold he
  | @deleted other =>
    simp only [View.discard, View.drop] at he
    split_ifs at he
    exact hold he
  | @undeleted other =>
    simp only [View.drop] at he
    split_ifs at he
    exact hold he
  | cleared => cases he
  | cleaned => exact hold (Option.filter_eq_some_iff.mp he).1
  | waited => exact hold he
  | restarted => cases he

/-- Every entry was set under a key with the same file name. -/
structure Traced (v : View) (history : List (Request × Answer)) : Prop where
  files : ∀ name e, v.files name = some e →
    ∃ key, nameOf key = name ∧ SetUnder history key e.value
  memory : ∀ key e, v.memory key = some e →
    ∃ other, nameOf other = nameOf key ∧ SetUnder history other e.value

theorem SetUnder.before {key : String} {value : Datum} (h : SetUnder history key value)
    (later : List (Request × Answer)) : SetUnder (history ++ later) key value := by
  obtain ⟨hours, useMemory, hmem⟩ := h
  exact ⟨hours, useMemory, List.mem_append_left _ hmem⟩

theorem SetUnder.since {key : String} {value : Datum} (h : SetUnder history key value)
    (earlier : List (Request × Answer)) : SetUnder (earlier ++ history) key value := by
  obtain ⟨hours, useMemory, hmem⟩ := h
  exact ⟨hours, useMemory, List.mem_append_right _ hmem⟩

theorem Traced.step (h : Traced v history) (hstep : Step v r a v') :
    Traced v' (history ++ [(r, a)]) := by
  constructor
  · intro name e he
    rcases hstep.files_source he with hold | ⟨key, hname, hset⟩
    · obtain ⟨key, hname, hset⟩ := h.files name e hold
      exact ⟨key, hname, hset.before _⟩
    · exact ⟨key, hname, hset.since _⟩
  · intro key e he
    rcases hstep.memory_source he with ⟨x, hvalue, hmemory | hfile⟩ | hset
    · obtain ⟨other, hname, hset⟩ := h.memory key x hmemory
      exact ⟨other, hname, hvalue ▸ hset.before _⟩
    · obtain ⟨other, hname, hset⟩ := h.files _ x hfile
      exact ⟨other, hname, hvalue ▸ hset.before _⟩
    · exact ⟨key, rfl, hset.since _⟩

private theorem Runs.traced {now : Moment} {hours : Datum}
    (hruns : Runs (.blank now hours) history v) : Traced v history := by
  have hblank : Traced (.blank now hours) [] := by
    constructor
    · intro name e he
      cases he
    · intro key e he
      cases he
  have htraced := hruns.preserves (P := Traced) (f := fun past x => past ++ [x])
    (fun x _ u u' past hpast hstep => hpast.step hstep) hblank
  rwa [List.foldl_append_eq_append, List.nil_append, ← List.flatMap_def,
    List.flatMap_singleton'] at htraced

theorem Step.apart (h : Step v r a v') {key other : String} (hr : r.key? = some other)
    (hne : other ≠ key) (hname : nameOf other ≠ nameOf key) :
    v'.now = v.now ∧ v'.memory key = v.memory key ∧
      v'.files (nameOf key) = v.files (nameOf key) := by
  have hkey {k : String} (hk : some k = some other) : key ≠ k ∧ nameOf key ≠ nameOf k := by
    obtain rfl := Option.some.inj hk
    exact ⟨hne.symm, hname.symm⟩
  cases h with
  | recalled => simp [View.keep, hkey hr]
  | lapsed => simp [View.drop, hkey hr]
  | @loaded k useMemory e =>
    cases useMemory with
    | false => exact ⟨rfl, rfl, rfl⟩
    | true => simp [View.keep, hkey hr]
  | lapsedFile => simp [View.discard, hkey hr]
  | absent => exact ⟨rfl, rfl, rfl⟩
  | unnamed => exact ⟨rfl, rfl, rfl⟩
  | @stored k value hours useMemory =>
    cases useMemory <;> simp [View.put, View.keep, View.store, hkey hr]
  | refused => exact ⟨rfl, rfl, rfl⟩
  | deleted => simp [View.discard, View.drop, hkey hr]
  | undeleted => simp [View.drop, hkey hr]
  | cleared => cases hr
  | cleaned => cases hr
  | waited => cases hr
  | restarted => cases hr

end Tracing

/-! Isolation. -/

section Keys

variable {place : Place} {c : Cache} {w : Workspace} {v : View} {key : String} {useMemory : Bool}

private theorem exists_of_answer {value : Datum} (h : v.answer key useMemory = some value) :
    ∃ e, e.value = value ∧ (v.memory key = some e ∨ v.files (nameOf key) = some e) := by
  rw [View.answer, Option.bind_eq_some_iff] at h
  obtain ⟨e, he, hworth⟩ := h
  rw [Deposit.worth] at hworth
  split_ifs at hworth
  refine ⟨e, Option.some.inj hworth, ?_⟩
  cases hmemory : v.recalled key useMemory with
  | none =>
    rw [hmemory, Option.none_or] at he
    exact .inr he
  | some x =>
    rw [hmemory, Option.some_or] at he
    exact .inl (Option.some.inj he ▸ (memory_of_recalled hmemory).2)

private theorem Shows.storable_of_answer (h : Shows place c w v) {value : Datum}
    (hanswer : v.answer key useMemory = some value) : Storable key := by
  obtain ⟨e, -, hmemory | hfile⟩ := exists_of_answer hanswer
  · exact h.keyed key e hmemory
  · exact h.storable hfile

private theorem Traced.setUnder {history : List (Request × Answer)} (h : Traced v history)
    {value : Datum} (hanswer : v.answer key useMemory = some value) :
    ∃ other, nameOf other = nameOf key ∧ SetUnder history other value := by
  obtain ⟨e, rfl, hmemory | hfile⟩ := exists_of_answer hanswer
  · exact h.memory key e hmemory
  · exact h.files _ e hfile

end Keys

theorem For.mem {keys : Set String} {requests : List Request} (h : For keys requests)
    {answers : List Answer} {key : String} {value : Datum}
    (hset : SetUnder (requests.zip answers) key value) : key ∈ keys := by
  obtain ⟨hours, useMemory, hmem⟩ := hset
  exact h _ (List.of_mem_zip hmem).1 key rfl

private theorem expiresAt_zero {now : Moment} (h : 0 ≤ now.micros ∧ now.micros < endOfTime)
    (standard : Datum) : expiresAt? now standard (.int 0) = some now := by
  have hspan : (0 : Int) * perHour = 0 := Int.zero_mul _
  simp only [expiresAt?, Datum.number?, Option.bind_some, expiry?, microsOfHours, hspan,
    Int.add_zero]
  rw [if_pos h]

private theorem Shows.leaks {place : Place} {c : Cache} {w : Workspace}
    (h : Shows place c w (.blank w.now c.hours))
    (hclock : 0 ≤ w.now.micros ∧ w.now.micros < endOfTime) {key other : String}
    (hother : Storable other) (hname : nameOf key = nameOf other) (value : Datum) :
    ∃ c' w', c.serveAll [.set other value (.int 0) false] w = (.ok (c', [.success true]), w') ∧
      c'.shown key false w' = .ok (some value) := by
  have hkey : Storable key := hother.congr hname.symm
  obtain ⟨c', a, w', v, hserve, hstep, hshows⟩ := h.serve (.set other value (.int 0) false)
  cases hstep with
  | stored _ hexpiry =>
    refine ⟨c', w', ?_, ?_⟩
    · rw [Cache.serveAll, Work.bind_ok hserve]
      rfl
    · rw [View.blank, expiresAt_zero hclock] at hexpiry
      obtain rfl := Option.some.inj hexpiry
      rw [hshows.shown_eq hkey.not_overlong]
      simp [View.answer, View.recalled, View.put, View.store, View.blank, hname, Deposit.worth,
        depositOf]
  | refused hcause =>
    rcases hcause with hnone | hrefused
    · rw [View.blank, expiresAt_zero hclock] at hnone
      cases hnone
    · exact absurd hother hrefused

private theorem Isolated.not_overlong {place : Place} {keys : Set String} {c : Cache}
    {w : Workspace} {v : View} (h : Isolated keys c w) (hshows : Shows place c w v) {key : String}
    (hkey : key ∈ keys) : ¬Overlong key := by
  intro hoverlong
  obtain ⟨c', answers, w', hserve, hkeys⟩ := h [] fun r hr => by cases hr
  obtain ⟨hresult, rfl⟩ := Prod.mk.inj hserve
  obtain ⟨rfl, -⟩ := Prod.mk.inj (Except.ok.inj hresult)
  obtain ⟨⟨found, hfound, -⟩, -⟩ := hkeys key hkey true
  obtain ⟨f, hfault⟩ := hshows.shown_of_overlong hoverlong true
  rw [hfault] at hfound
  cases hfound

/-- Isolated keys have file names of their own: what is set under one key is seen under every other
key with its file name. -/
private theorem Isolated.eq_of_nameOf {place : Place} {keys : Set String} {c : Cache}
    {w : Workspace} (h : Isolated keys c w) (hblank : Shows place c w (.blank w.now c.hours))
    (hclock : 0 ≤ w.now.micros ∧ w.now.micros < endOfTime) {key other : String}
    (hkey : key ∈ keys) (hother : other ∈ keys) (hstorable : Storable key)
    (hname : nameOf key = nameOf other) : key = other := by
  obtain ⟨c₁, w₁, hrun, hseen⟩ := hblank.leaks hclock (hstorable.congr hname) hname (.bool true)
  have hfor : For keys [.set other (.bool true) (.int 0) false] := by
    intro r hr k hk
    obtain rfl := List.mem_singleton.mp hr
    obtain rfl := Option.mem_some_iff.mp hk
    exact hother
  obtain ⟨c', answers, w', hserve, hkeys⟩ := h _ hfor
  obtain ⟨hresult, rfl⟩ := Prod.mk.inj (hrun.symm.trans hserve)
  obtain ⟨rfl, rfl⟩ := Prod.mk.inj (Except.ok.inj hresult)
  obtain ⟨⟨found, hfound, hset⟩, -⟩ := hkeys key hkey false
  rw [hseen] at hfound
  obtain ⟨hours, useMemory, hmem⟩ := hset (.bool true) (Except.ok.inj hfound ▸ rfl)
  have hsame : key = other ∧ hours = .int 0 ∧ useMemory = false := by simpa using hmem
  exact hsame.1

private theorem Shows.shown_apart {place : Place} {c : Cache} {w : Workspace} {v : View}
    (h : Shows place c w v) {key other : String} (hlong : ¬Overlong key) (hne : other ≠ key)
    (hname : Storable key → nameOf other ≠ nameOf key) {r : Request} (hr : r.key? = some other)
    (useMemory : Bool) :
    ∃ c' a w', c.serve r w = (.ok (c', a), w') ∧
      c'.shown key useMemory w' = c.shown key useMemory w := by
  obtain ⟨c', a, w', v', hserve, hstep, hshows⟩ := h.serve r
  refine ⟨c', a, w', hserve, ?_⟩
  rw [h.shown_eq hlong, hshows.shown_eq hlong]
  by_cases hstorable : Storable key
  · obtain ⟨hnow, hmemory, hfiles⟩ := hstep.apart hr hne (hname hstorable)
    rw [View.answer, View.answer, View.recalled, View.recalled, hnow, hmemory, hfiles]
  · -- A key that cannot be stored has nothing before the request and nothing after it.
    have hnone {place : Place} {c : Cache} {w : Workspace} {v : View} (hv : Shows place c w v) :
        v.answer key useMemory = none :=
      Option.eq_none_iff_forall_ne_some.mpr fun value hvalue =>
        hstorable (hv.storable_of_answer hvalue)
    rw [hnone h, hnone hshows]

/-- Keys are isolated exactly if all of them can be looked for and those that can be stored have
file names of their own. -/
theorem isolated_iff {c : Cache} {w : Workspace} (h : Fresh c w)
    (hclock : 0 ≤ w.now.micros ∧ w.now.micros < endOfTime) (keys : Set String) :
    Isolated keys c w ↔
      (∀ key ∈ keys, ¬Overlong key) ∧
        ∀ key ∈ keys, ∀ other ∈ keys, Storable key → Path.flatName key = Path.flatName other →
          key = other := by
  obtain ⟨place, hblank⟩ := h.shows
  constructor
  · intro hisolated
    refine ⟨fun key hkey => hisolated.not_overlong hblank hkey, ?_⟩
    intro key hkey other hother hstorable hflat
    exact hisolated.eq_of_nameOf hblank hclock hkey hother hstorable (nameOf_inj.mpr hflat)
  · rintro ⟨hlong, hown⟩ requests hfor
    obtain ⟨c', answers, w', v, hserve, -, hruns, hshows⟩ := hblank.serveAll requests
    refine ⟨c', answers, w', hserve, fun key hkey useMemory => ⟨?_, ?_⟩⟩
    · refine ⟨_, hshows.shown_eq (hlong key hkey) useMemory, fun value hvalue => ?_⟩
      obtain ⟨other, hname, hset⟩ := hruns.traced.setUnder hvalue
      have hsame := hown key hkey other (hfor.mem hset) (hshows.storable_of_answer hvalue)
        (nameOf_inj.mp hname.symm)
      exact hsame ▸ hset
    · intro other hother hne r hr
      refine hshows.shown_apart (hlong key hkey) hne (fun hstorable heq => ?_) hr useMemory
      exact hne (hown key hkey other hother hstorable (nameOf_inj.mp heq.symm)).symm

theorem isolated_iff_flattened :
    Fresh emptyCache emptyRoom ∧
      (0 ≤ emptyRoom.now.micros ∧ emptyRoom.now.micros < endOfTime) ∧
      ¬Isolated {"a/b", "a_b"} emptyCache emptyRoom ∧
      Isolated {"a/b", "a_c", "a\\d"} emptyCache emptyRoom := by
  have hclock : 0 ≤ emptyRoom.now.micros ∧ emptyRoom.now.micros < endOfTime := by decide +kernel
  refine ⟨fresh_emptyCache, hclock, ?_, ?_⟩
  · rw [isolated_iff fresh_emptyCache hclock]
    rintro ⟨-, hown⟩
    have hsame := hown "a/b" (by simp) "a_b" (by simp) (by decide +kernel) (by decide +kernel)
    exact absurd hsame (by decide)
  · rw [isolated_iff fresh_emptyCache hclock]
    refine ⟨?_, ?_⟩
    · rintro key (rfl | rfl | rfl) <;> decide +kernel
    · rintro key (rfl | rfl | rfl) other (rfl | rfl | rfl) - <;> decide +kernel

end SuiteTidy.Cache
