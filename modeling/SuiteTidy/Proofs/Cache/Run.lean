import SuiteTidy.Proofs.Cache.Step

/-!
Runs of a cache. Requests are served one after another from a cache that was opened in a directory
without cache files. What each step keeps up, the whole run keeps up.
-/

set_option autoImplicit false
set_option relaxedAutoImplicit false

namespace SuiteTidy.Cache

/-! What asking for a key gives. -/

structure Deposit where
  value : Datum
  expiresAt : Moment

def Deposit.worth (now : Moment) (d : Deposit) : Option Datum :=
  if d.expiresAt.micros < now.micros then none else some d.value

def depositOf (e : CacheEntry) : Deposit := { value := e.value, expiresAt := e.expiresAt }

theorem worth_of_live {e : CacheEntry} {now : Moment} (h : e.isExpired now = false) :
    (depositOf e).worth now = some e.value :=
  if_neg (of_decide_eq_false h)

theorem worth_of_expired {e : CacheEntry} {now : Moment} (h : e.isExpired now = true) :
    (depositOf e).worth now = none :=
  if_pos (of_decide_eq_true h)

/-- What a view has for a key: what is in memory, if that is asked, and else what is in the file. -/
def View.answer (v : View) (key : String) (useMemory : Bool) : Option Datum :=
  ((v.recalled key useMemory).or (v.files (nameOf key))).bind fun e => (depositOf e).worth v.now

def shown (c : Cache) (key : String) (useMemory : Bool) (w : Workspace) :
    Except Fault (Option Datum) :=
  (c.get key useMemory w).1.map Prod.snd

theorem Step.answer {v v' : View} {key : String} {useMemory : Bool} {found : Option Datum}
    (h : Step v (.get key useMemory) (.value found) v') : found = v.answer key useMemory := by
  rw [View.answer]
  cases h with
  | recalled hmemory hlive => simp [hmemory, worth_of_live hlive]
  | lapsed hmemory hexpired => simp [hmemory, worth_of_expired hexpired]
  | loaded hmemory hfile hlive => simp [hmemory, hfile, worth_of_live hlive]
  | lapsedFile hmemory hfile hexpired => simp [hmemory, hfile, worth_of_expired hexpired]
  | absent hmemory hfile => simp [hmemory, hfile]

theorem Shows.shown_eq {place : Place} {c : Cache} {w : Workspace} {v : View}
    (h : Shows place c w v) {key : String} (hkey : ¬Overlong key) (useMemory : Bool) :
    c.shown key useMemory w = .ok (v.answer key useMemory) := by
  obtain ⟨c', found, w', v', hget, hstep, -⟩ := h.looks useMemory hkey
  rw [shown, hget, ← hstep.answer]
  rfl

theorem Shows.shown_of_overlong {place : Place} {c : Cache} {w : Workspace} {v : View}
    (h : Shows place c w v) {key : String} (hkey : Overlong key) (useMemory : Bool) :
    ∃ f, c.shown key useMemory w = .error f := by
  obtain ⟨f, hget⟩ := h.get_overlong useMemory hkey
  refine ⟨f, ?_⟩
  rw [shown, hget]
  rfl

/-! Serving many requests. -/

def serveAll (c : Cache) : List Request → Work (Cache × List Answer)
  | [] => return (c, [])
  | r :: requests => do
    let (c', a) ← c.serve r
    let (c'', answers) ← c'.serveAll requests
    return (c'', a :: answers)

def For (keys : Set String) (requests : List Request) : Prop :=
  ∀ r ∈ requests, ∀ key ∈ r.key?, key ∈ keys

/-- What serving requests one after another can do, with the answers to them. -/
inductive Runs : View → List (Request × Answer) → View → Prop
  | nil (v : View) : Runs v [] v
  | cons {v v' v'' : View} {r : Request} {a : Answer} {history : List (Request × Answer)}
      (hstep : Step v r a v') (hrest : Runs v' history v'') : Runs v ((r, a) :: history) v''

/-- What each step of a run keeps up, along with a record of the run, the whole run keeps up. -/
theorem Runs.preserves {σ : Type} {P : View → σ → Prop} {f : σ → Request × Answer → σ}
    {v v' : View} {history : List (Request × Answer)} (hruns : Runs v history v')
    (hstep : ∀ x ∈ history, ∀ u u' s, P u s → Step u x.1 x.2 u' → P u' (f s x)) {s : σ}
    (h : P v s) : P v' (history.foldl f s) := by
  induction hruns generalizing s with
  | nil v => exact h
  | @cons v u v' r a history hfirst hrest ih =>
    refine ih (fun x hx => hstep x (List.mem_cons_of_mem _ hx)) ?_
    exact hstep (r, a) List.mem_cons_self v u s h hfirst

theorem Shows.serveAll {place : Place} {c : Cache} {w : Workspace} {v : View}
    (h : Shows place c w v) (requests : List Request) :
    ∃ c' answers w' v', c.serveAll requests w = (.ok (c', answers), w') ∧
      answers.length = requests.length ∧ Runs v (requests.zip answers) v' ∧
      Shows place c' w' v' := by
  induction requests generalizing c w v with
  | nil => exact ⟨c, [], w, v, rfl, rfl, .nil v, h⟩
  | cons r requests ih =>
    obtain ⟨c', a, w', v', hserve, hstep, hshows⟩ := h.serve r
    obtain ⟨c'', answers, w'', v'', hrest, hlength, hruns, hend⟩ := ih hshows
    refine ⟨c'', a :: answers, w'', v'', ?_, ?_, .cons hstep hruns, hend⟩
    · rw [Cache.serveAll, Work.bind_ok hserve]
      dsimp only
      rw [Work.bind_ok hrest]
      rfl
    · rw [List.length_cons, List.length_cons, hlength]

structure Fresh (c : Cache) (w : Workspace) : Prop where
  opened : ∃ start, openAt c.folder c.hours start = (.ok c, w)
  ordered : w.files.Ordered
  empty : ∀ place, w.files.locate c.folder = .ok place →
    ∀ name, name.endsWith ending = true → w.files.lookup (place ++ [name]) = none

def View.blank (now : Moment) (hours : Datum) : View :=
  { now, hours, memory := fun _ => none, files := fun _ => none }

theorem Fresh.shows {c : Cache} {w : Workspace} (h : Fresh c w) :
    ∃ place, Shows place c w (.blank w.now c.hours) := by
  obtain ⟨start, hopen⟩ := h.opened
  obtain ⟨words, hmake⟩ := FileTree.acts_makeDirectoriesTo c.folder c.folder.parts.length start
  rw [openAt, Work.bind_eq_ok_iff] at hopen
  obtain ⟨u, w', hmade, hreturn⟩ := hopen
  obtain ⟨hc, rfl⟩ := Prod.mk.inj hreturn
  rw [Work.makeDirectories, hmake] at hmade
  obtain ⟨hresult, rfl⟩ := Prod.mk.inj hmade
  have hdir := FileTree.isDir_of_makeDirectoriesTo hresult
  obtain ⟨place, hlocated, hdirectory⟩ := FileTree.isDir_eq_true_iff.mp hdir
  have hmemory : c.memory = [] := by
    rw [← Except.ok.inj hc]
  refine ⟨place, ?_⟩
  exact {
    now := rfl
    hours := rfl
    located := hlocated
    directory := hdirectory
    ordered := h.ordered
    distinct := by rw [hmemory]; exact List.nodup_nil
    known := fun key => by rw [known?, hmemory]; rfl
    found := h.empty place hlocated
    named := fun name e he => by cases he
    keyed := fun key e he => by cases he }

/-- A workspace that has nothing but a directory for a cache, and the cache. -/
def emptyRoom : Workspace := { files := { entries := [(["cache"], .directory)] }, now := ⟨0, none⟩ }

def emptyCache : Cache := { folder := { parts := ["cache"] } }

theorem fresh_emptyCache : Fresh emptyCache emptyRoom where
  opened := ⟨{ now := ⟨0, none⟩ }, rfl⟩
  ordered := List.pairwise_singleton _ _
  empty place hplace name hname := by
    obtain rfl : ["cache"] = place := Except.ok.inj hplace
    have hfree := not_surrounding_child hname ["cache"]
    rw [FileTree.lookup, hfree]
    rfl

end SuiteTidy.Cache
