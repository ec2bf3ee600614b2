import SuiteTidy.Proofs.Cache.Ledger
import Mathlib.Data.Set.Function

/-!
One key of a cache, with the memory used or passed by on each request. The account of a run has
beside the ledger the deposit of which memory holds a copy. Past the memory, asking gives what
was set last. Through the memory it gives that exactly if the copy is worth the same; it always is
if every set went through the memory.
-/

set_option autoImplicit false
set_option relaxedAutoImplicit false

namespace SuiteTidy.Cache

/-- What was set last under one key, and what memory has of it. -/
structure Account where
  ledger : Ledger
  copy : Option Deposit

namespace Account

def opened (now : Moment) (hours : Datum) : Account := { ledger := .opened now hours, copy := none }

/-- The copy in memory after a request. A value that is found in the file is copied, and a copy that
has expired when it is asked for is dropped; setting a value past the memory leaves it alone. -/
def copied (b : Account) (key : String) : Request → Answer → Option Deposit
  | .get _ true, .value (some _) => b.copy.or (b.ledger.latest key)
  | .get _ true, .value none => none
  | .set _ value hours true, .success true =>
    (expiresAt? b.ledger.now b.ledger.hours hours).map fun expiresAt => { value, expiresAt }
  | .delete _, _ => none
  | .clear, _ => none
  | .cleanup, _ => b.copy.filter fun d => (d.worth b.ledger.now).isSome
  | .restart _, _ => none
  | _, _ => b.copy

def record (key : String) (b : Account) (x : Request × Answer) : Account :=
  { ledger := b.ledger.record x.1 x.2, copy := b.copied key x.1 x.2 }

def after (key : String) (b : Account) (history : List (Request × Answer)) : Account :=
  history.foldl (record key) b

private theorem ledger_after (key : String) (b : Account) (history : List (Request × Answer)) :
    (b.after key history).ledger = b.ledger.after history := by
  induction history generalizing b with
  | nil => rfl
  | cons x history ih => exact ih (b.record key x)

end Account

structure Tallies (key : String) (v : View) (b : Account) : Prop where
  files : Agrees {key} v b.ledger
  memory : (v.memory key).map depositOf = b.copy

private theorem apart_singleton {key : String} (h : Storable key) : Apart {key} where
  storable other hother := by
    obtain rfl : other = key := hother
    exact h
  injective := Set.injOn_singleton _ _

section Tally

variable {key : String} {v v' : View} {b : Account} {r : Request} {a : Answer}

theorem Tallies.copied (h : Tallies key v b) (hr : ∀ other ∈ r.key?, other = key)
    (hstep : Step v r a v') : (v'.memory key).map depositOf = b.copied key r a := by
  have hcopy := h.memory
  cases hstep with
  | @recalled other useMemory e hmemory hlive =>
    obtain rfl : other = key := hr other rfl
    obtain ⟨rfl, hknown⟩ := memory_of_recalled hmemory
    rw [hknown] at hcopy
    simp [Account.copied, View.keep, ← hcopy, met, depositOf]
  | @lapsed other useMemory e hmemory hexpired =>
    obtain rfl : other = key := hr other rfl
    obtain ⟨rfl, -⟩ := memory_of_recalled hmemory
    simp [Account.copied, View.drop]
  | @loaded other useMemory e hmemory hfile hlive =>
    obtain rfl : other = key := hr other rfl
    cases useMemory with
    | false => exact hcopy
    | true =>
      -- Memory had no copy; it gets one of what is in the file, and that was set last.
      rw [memory_of_unrecalled hmemory] at hcopy
      have hlatest := (h.files.filed other rfl).latest hfile
      simp [Account.copied, View.keep, ← hcopy, hlatest, met, depositOf]
  | @lapsedFile other useMemory e hmemory hfile hexpired =>
    obtain rfl : other = key := hr other rfl
    cases useMemory with
    | false => exact hcopy
    | true =>
      have hnone := memory_of_unrecalled hmemory
      simp [Account.copied, View.discard, hnone]
  | @absent other useMemory hmemory hfile hkey =>
    obtain rfl : other = key := hr other rfl
    cases useMemory with
    | false => exact hcopy
    | true =>
      have hnone := memory_of_unrecalled hmemory
      simp [Account.copied, hnone]
  | @unnamed other useMemory f hkey =>
    cases useMemory <;> exact hcopy
  | @stored other value hours useMemory expiresAt hkey hexpiry =>
    obtain rfl : other = key := hr other rfl
    cases useMemory with
    | false => exact hcopy
    | true =>
      rw [h.files.now, h.files.hours] at hexpiry
      simp [Account.copied, View.put, View.keep, hexpiry, depositOf]
  | @refused other value hours useMemory hcause =>
    cases useMemory <;> exact hcopy
  | @deleted other hkey =>
    obtain rfl : other = key := hr other rfl
    simp [Account.copied, View.discard, View.drop]
  | @undeleted other f hkey =>
    obtain rfl : other = key := hr other rfl
    simp [Account.copied, View.drop]
  | cleared => rfl
  | cleaned =>
    simp only [Account.copied, ← hcopy, ← h.files.now, View.swept]
    cases v.memory key with
    | none => rfl
    | some e =>
      cases hexpired : e.isExpired v.now with
      | true => simp [Option.filter, hexpired, worth_of_expired hexpired]
      | false => simp [Option.filter, hexpired, worth_of_live hexpired]
  | waited => exact hcopy
  | restarted => rfl

private theorem Runs.tallies (hkey : Storable key) {requests : List Request} {answers : List Answer}
    (hfor : For {key} requests) (hruns : Runs v (requests.zip answers) v') (h : Tallies key v b) :
    Tallies key v' (b.after key (requests.zip answers)) := by
  refine hruns.preserves (P := Tallies key) (fun x hx u u' s hs hstep => ?_) h
  have hr : ∀ other ∈ x.1.key?, other ∈ ({key} : Set String) := hfor x.1 (List.of_mem_zip hx).1
  exact ⟨hs.files.step (apart_singleton hkey) hr hstep, hs.copied hr hstep⟩

private theorem Tallies.answer_iff (h : Tallies key v b) :
    v.answer key true = b.ledger.current key ↔
      ∀ d ∈ b.copy, d.worth b.ledger.now = b.ledger.current key := by
  have hcopy := h.memory
  cases hmemory : v.memory key with
  | none =>
    rw [hmemory] at hcopy
    rw [answer_unremembered hmemory, h.files.answer_file rfl, ← hcopy]
    simp
  | some e =>
    rw [hmemory] at hcopy
    rw [answer_remembered hmemory, h.files.now, ← hcopy]
    simp

end Tally

structure Sees (c : Cache) (w : Workspace) (key : String) (b : Account) : Prop where
  file : c.shown key false w = .ok (b.ledger.current key)
  memory : c.shown key true w = .ok (b.ledger.current key) ↔
    ∀ d ∈ b.copy, d.worth b.ledger.now = b.ledger.current key

/-- A cache shows the last value of a key whenever the memory is passed by. Asked through the
memory, it shows it exactly if the copy there is worth the same, and it always does if no value was
set past the memory. -/
theorem serveAll_sees {c : Cache} {w : Workspace} (h : Fresh c w) {key : String}
    (hkey : Storable key) {requests : List Request} (hkeys : For {key} requests) :
    ∃ c' answers w', c.serveAll requests w = (.ok (c', answers), w') ∧
      answers.length = requests.length ∧
      Sees c' w' key ((Account.opened w.now c.hours).after key (requests.zip answers)) ∧
      ((∀ r ∈ requests, r.SetsMemory) → ∀ useMemory, c'.shown key useMemory w' =
        .ok (((Account.opened w.now c.hours).after key (requests.zip answers)).ledger.current
          key)) := by
  obtain ⟨place, hblank⟩ := h.shows
  obtain ⟨c', answers, w', v, hserve, hlength, hruns, hshows⟩ := hblank.serveAll requests
  have hstart : Tallies key (.blank w.now c.hours) (.opened w.now c.hours) :=
    ⟨agrees_blank _ w.now c.hours, rfl⟩
  have htally := hruns.tallies hkey hkeys hstart
  refine ⟨c', answers, w', hserve, hlength, ⟨?_, ?_⟩, fun hset useMemory => ?_⟩
  · rw [hshows.shown_eq hkey.not_overlong, htally.files.answer_file rfl]
  · rw [hshows.shown_eq hkey.not_overlong, Except.ok.injEq]
    exact htally.answer_iff
  · have hmemory := hruns.mirrors (apart_singleton hkey) hkeys hset (agrees_blank _ w.now c.hours)
      (mirrors_blank _ w.now c.hours)
    have hledger := Account.ledger_after key (.opened w.now c.hours) (requests.zip answers)
    rw [Account.opened] at hledger
    rw [← hledger] at hmemory
    rw [hshows.shown_eq hkey.not_overlong, hmemory.answer htally.files rfl]
    rfl

/-- A value is set past the memory, which has an older one. -/
def staleRun : List Request :=
  [.set "k" (.int 1) .null true, .set "k" (.int 2) .null false]

theorem serveAll_sees_staleRun :
    Fresh emptyCache emptyRoom ∧ Storable "k" ∧ For {"k"} staleRun ∧
      ∃ c' answers w', emptyCache.serveAll staleRun emptyRoom = (.ok (c', answers), w') ∧
        answers.length = staleRun.length ∧
        Sees c' w' "k" ((Account.opened emptyRoom.now emptyCache.hours).after "k"
          (staleRun.zip answers)) ∧
        ((∀ r ∈ staleRun, r.SetsMemory) → ∀ useMemory, c'.shown "k" useMemory w' =
          .ok (((Account.opened emptyRoom.now emptyCache.hours).after "k"
            (staleRun.zip answers)).ledger.current "k")) := by
  have hkey : Storable "k" := by decide +kernel
  have hkeys : For {"k"} staleRun := by
    intro r hr
    simp only [staleRun, List.mem_cons, List.not_mem_nil, or_false] at hr
    rcases hr with rfl | rfl <;> simp [Request.key?]
  exact ⟨fresh_emptyCache, hkey, hkeys, serveAll_sees fresh_emptyCache hkey hkeys⟩

-- The older value is seen through the memory, and the newer one past it.
example : ∃ c' answers w', emptyCache.serveAll staleRun emptyRoom = (.ok (c', answers), w') ∧
    c'.shown "k" true w' = .ok (some (.int 1)) ∧ c'.shown "k" false w' = .ok (some (.int 2)) :=
  ⟨_, _, _, rfl, rfl, rfl⟩

end SuiteTidy.Cache
