import SuiteTidy.Proofs.Pattern.Ledger

/-!
The two views of a store of patterns: what is found under an identifier, and the list of all. After
any calls on a store that was opened in an empty directory both are as the ledger of the calls has
them. The list is written by saving a list and by nothing else, so the views agree only as long as
the ledger does.
-/

set_option autoImplicit false
set_option relaxedAutoImplicit false

namespace SuiteTidy.PatternStore

open FileTree Work

/-! What a store knows. -/

theorem known?_remember (s : PatternStore) (p : Pattern) (id : String) :
    (s.remember p).known? id = if id = p.id then some p else s.known? id := by
  rw [remember, known?, known?]
  induction s.known with
  | nil =>
    by_cases hid : id = p.id
    · simp [remember.place, hid]
    · simp [remember.place, hid, Ne.symm hid]
  | cons x known ih =>
    obtain ⟨key, q⟩ := x
    by_cases hkey : key = p.id
    · by_cases hid : id = p.id
      · simp [remember.place, hkey, hid]
      · simp [remember.place, hkey, hid, Ne.symm hid]
    · by_cases hid : key = id
      · have hne : id ≠ p.id := hid ▸ hkey
        simp [remember.place, hid, hne]
      · simpa [remember.place, hkey, hid] using ih

private theorem known?_forget (s : PatternStore) (id other : String) :
    (s.forget id).known? other = if other = id then none else s.known? other := by
  rw [forget, known?, known?, List.find?_filter]
  split_ifs with heq
  · subst heq
    rw [Option.map_eq_none_iff, List.find?_eq_none]
    intro x _
    simp
  · congr 2
    funext x
    by_cases hx : x.1 = other
    · simp [hx, heq]
    · simp [hx]

/-! Stores and ledgers. -/

/-- A store in a directory with the patterns that a ledger says. A pattern that it does not know has
no file, or its name is too long to be looked for. -/
structure Reflects (place : Place) (s : PatternStore) (t : FileTree) (g : Ledger) : Prop where
  located : t.locate s.folder = .ok place
  directory : t.lookup place = some .directory
  known : ∀ id, s.known? id = g.latest id
  files : ∀ id, t.lookup (place ++ [fileName id]) ≠ some .directory
  unknown : ∀ id, (fileName id).utf8ByteSize ≤ nameLimit → g.latest id = none →
    t.lookup (place ++ [fileName id]) = none
  list : t.lookup (place ++ [listName]) = none ∧ g.listed = [] ∨
    Json.Holds t s.listFile (.list (g.listed.map Pattern.toDatum))

variable {place : Place} {s s' : PatternStore} {t t' : FileTree} {g g' : Ledger}
  {p : Pattern} {ps : List Pattern} {id : String}

theorem Reflects.isDir (h : Reflects place s t g) : t.isDir s.folder = .ok true :=
  isDir_eq_true_iff.mpr ⟨place, h.located, h.directory⟩

private theorem Reflects.locate_listFile (h : Reflects place s t g) :
    t.locate s.listFile = .ok (place ++ [listName]) := by
  have hchild := oneName_listName.locate_below h.located h.directory
  rwa [if_neg (by decide)] at hchild

private theorem Reflects.list_free (h : Reflects place s t g) :
    t.lookup (place ++ [listName]) ≠ some .directory := by
  rcases h.list with ⟨hnone, -⟩ | ⟨found, text, hfound, hfile, -⟩
  · rw [hnone]
    simp
  · obtain rfl := Except.ok.inj (h.locate_listFile.symm.trans hfound)
    rw [fileAt_eq_some_iff.mp hfile]
    simp

private theorem Reflects.fits_iff (h : Reflects place s t g) (hp : Nameable p.id) :
    Fits t s.folder p ↔ Keepable p := by
  rw [Fits, hp.oneName.room_iff h.located h.directory, and_iff_left (h.files p.id), Keepable]

private theorem child_ne {a b : String} (h : a ≠ b) : place ++ [a] ≠ place ++ [b] :=
  fun heq => h (List.singleton_inj.mp (List.append_cancel_left heq))

theorem Reflects.changed (h : Reflects place s t g)
    (ht : ChangedAt (place ++ [fileName id]) t t') (hfolder : s'.folder = s.folder)
    (hlisted : g'.listed = g.listed) (hknown : ∀ other, s'.known? other = g'.latest other)
    (hlatest : ∀ other, other ≠ id → g'.latest other = g.latest other)
    (hfile : (fileName id).utf8ByteSize ≤ nameLimit → g'.latest id = none →
      t'.lookup (place ++ [fileName id]) = none) :
    Reflects place s' t' g' where
  located := by
    rw [hfolder]
    exact locate_eq_ok ht.sameDirectories.1 h.located
  directory := ht.sameDirectories.1 place h.directory
  known := hknown
  files other := ht.sameDirectories.lookup_ne (h.files other)
  unknown other hshort hnone := by
    by_cases heq : other = id
    · subst heq
      exact hfile hshort hnone
    · rw [hlatest other heq] at hnone
      rw [ht.others _ (child_ne fun hname => heq (fileName_inj hname))]
      exact h.unknown other hshort hnone
  list := by
    have hne : place ++ [listName] ≠ place ++ [fileName id] :=
      child_ne (fileName_ne_listName id).symm
    rw [hlisted, ht.others _ hne]
    refine h.list.imp_right fun hholds => ?_
    rw [listFile, hfolder]
    exact hholds.changedAt ht h.locate_listFile hne

/-! Single calls. -/

theorem Reflects.note (h : Reflects place s t g)
    (ht : ChangedAt (place ++ [fileName p.id]) t t') :
    Reflects place (s.remember p) t' (g.note p) := by
  refine h.changed ht rfl rfl (fun other => ?_) (fun other hne => ?_) fun _ hnone => ?_
  · rw [known?_remember, Ledger.latest_note, h.known]
  · rw [Ledger.latest_note, if_neg hne]
  · rw [Ledger.latest_note, if_pos rfl] at hnone
    cases hnone

theorem Reflects.save (h : Reflects place s t g) (now : Moment) (hp : Nameable p.id) :
    ∃ r t', Leads (s.save p) now t (.ok (s.remember p, r)) t' ∧ (r = .ok () ↔ Keepable p) ∧
      Reflects place (s.remember p) t' (g.note p) := by
  by_cases hkeep : Keepable p
  · obtain ⟨t', hsave, hwrote, -⟩ := leads_save now hp h.isDir ((h.fits_iff hp).mpr hkeep)
    exact ⟨.ok (), t', hsave, iff_of_true rfl hkeep, h.note (hwrote.changedAt h.located)⟩
  · have hfits : ¬Fits t s.folder p := fun hfits => hkeep ((h.fits_iff hp).mp hfits)
    obtain ⟨f, hsave⟩ := leads_save_refused now hp h.isDir hfits
    exact ⟨.error f, t, hsave, iff_of_false (by simp) hkeep, h.note (.refl (h.files p.id))⟩

theorem Reflects.saveEach (h : Reflects place s t g) (now : Moment)
    (hps : ∀ p ∈ ps, Nameable p.id) :
    ∃ s' r t', Leads (s.saveEach ps) now t (.ok (s', r)) t' ∧ (r = .ok () ↔ ∀ p ∈ ps, Keepable p) ∧
      Reflects place s' t' (g.noteEach ps) := by
  induction ps generalizing s t g with
  | nil => exact ⟨s, .ok (), t, Leads.pure _, by simp, h⟩
  | cons p ps ih =>
    rw [List.forall_mem_cons] at hps
    obtain ⟨r, t', hsave, hr, hnoted⟩ := h.save now hps.1
    rw [List.forall_mem_cons, Ledger.noteEach]
    cases r with
    | error f =>
      have hrefused : ¬Keepable p := fun hkeep => by cases hr.mpr hkeep
      rw [if_neg hrefused]
      exact ⟨s.remember p, .error f, t', hsave.bind (Leads.pure _),
        iff_of_false (by simp) fun hall => hrefused hall.1, hnoted⟩
    | ok u =>
      have hkeep := hr.mp rfl
      obtain ⟨s', r, t'', hrest, hr', hreflects⟩ := ih hnoted hps.2
      rw [if_pos hkeep, and_iff_right hkeep]
      exact ⟨s', r, t'', hsave.bind hrest, hr', hreflects⟩

theorem Reflects.saveAll (h : Reflects place s t g) (now : Moment)
    (hps : ∀ p ∈ ps, Nameable p.id) :
    ∃ s' r t', Leads (s.saveAll ps) now t (.ok (s', r)) t' ∧
      Reflects place s' t' (g.after now (.saveAll ps)) := by
  obtain ⟨s', r, t', heach, hr, hnoted⟩ := h.saveEach now hps
  rw [Ledger.after]
  cases r with
  | error f =>
    have hrefused : ¬∀ p ∈ ps, Keepable p := fun hkeep => by cases hr.mpr hkeep
    rw [if_neg hrefused]
    exact ⟨s', .error f, t', heach.bind (Leads.pure _), hnoted⟩
  | ok u =>
    have hkeep := hr.mp rfl
    have hroom := (oneName_listName.room_iff hnoted.located hnoted.directory).mpr
      ⟨by decide, hnoted.list_free⟩
    have hplain := plain_list fun p hp => (hkeep p hp).1
    obtain ⟨t'', hstore, hwrote, hholds⟩ := Json.leads_store now Json.Layout.standard_stored rfl
      hplain (oneName_listName.fileName hroom.1) hnoted.isDir hroom.2
    rw [if_pos hkeep]
    refine ⟨s', .ok (), t'', heach.bind (hstore.attempt.bind (Leads.pure _)), ?_⟩
    have ht := hwrote.changedAt hnoted.located
    exact {
      located := locate_eq_ok ht.sameDirectories.1 hnoted.located
      directory := ht.sameDirectories.1 place hnoted.directory
      known := hnoted.known
      files := fun id => ht.sameDirectories.lookup_ne (hnoted.files id)
      unknown := fun id hshort hnone => by
        rw [ht.others _ (child_ne (fileName_ne_listName id))]
        exact hnoted.unknown id hshort hnone
      list := Or.inr hholds }

theorem Reflects.locate_fileOf (h : Reflects place s t g) (hid : Nameable id) :
    t.locate (s.fileOf id) =
      if nameLimit < (fileName id).utf8ByteSize then .error (.nameTooLong (s.fileOf id))
      else .ok (place ++ [fileName id]) :=
  hid.oneName.locate_below h.located h.directory

private theorem Reflects.leads_pathExists (h : Reflects place s t g) (now : Moment)
    (hid : Nameable id) :
    (nameLimit < (fileName id).utf8ByteSize ∧
      ∃ f, Leads (pathExists (s.fileOf id)) now t (.error f) t) ∨
    ((fileName id).utf8ByteSize ≤ nameLimit ∧ Leads (pathExists (s.fileOf id)) now t
      (.ok (t.lookup (place ++ [fileName id])).isSome) t) := by
  have hplace := h.locate_fileOf hid
  split_ifs at hplace with hlong
  · exact Or.inl ⟨hlong, _, Leads.ask_error (exists_of_nameTooLong hplace)⟩
  · exact Or.inr ⟨Nat.not_lt.mp hlong, Leads.ask (exists_of_locate hplace)⟩

private theorem Reflects.find?_known (h : Reflects place s t g) (now : Moment)
    (hp : g.latest id = some p) : Leads (s.find? id) now t (.ok (some p)) t := by
  have hknown : s.known? id = some p := (h.known id).trans hp
  rw [find?, hknown]
  exact Leads.pure _

private theorem Reflects.find?_unknown (h : Reflects place s t g) (now : Moment) (hid : Nameable id)
    (hnone : g.latest id = none) :
    ∃ r, Leads (s.find? id) now t r t ∧ (r = .ok none ∨ ∃ f, r = .error f) := by
  have hknown : s.known? id = none := (h.known id).trans hnone
  rw [find?, hknown]
  rcases h.leads_pathExists now hid with ⟨-, f, hasked⟩ | ⟨hshort, hasked⟩
  · exact ⟨_, hasked.bind_error, Or.inr ⟨f, rfl⟩⟩
  · rw [h.unknown id hshort hnone] at hasked
    exact ⟨_, hasked.bind (Leads.pure _), Or.inl rfl⟩

theorem Reflects.strike (h : Reflects place s t g)
    (ht : ChangedAt (place ++ [fileName id]) t t')
    (hfile : (fileName id).utf8ByteSize ≤ nameLimit →
      t'.lookup (place ++ [fileName id]) = none) :
    Reflects place (s.forget id) t' (g.strike id) := by
  refine h.changed ht rfl rfl (fun other => ?_) (fun other hne => ?_) fun hshort _ => hfile hshort
  · rw [known?_forget, Ledger.latest_strike, h.known]
  · rw [Ledger.latest_strike, if_neg hne]

private theorem leads_delete {now : Moment} {r : Except Fault Bool}
    (h : Leads (s.removal id) now t r t') : Leads (s.delete id) now t (.ok (s.forget id, r)) t' :=
  h.attempt.bind (Leads.pure _)

theorem Reflects.delete (h : Reflects place s t g) (now : Moment) (hid : Nameable id) :
    ∃ r t', Leads (s.delete id) now t (.ok (s.forget id, r)) t' ∧
      Reflects place (s.forget id) t' (g.strike id) := by
  have hsame : ChangedAt (place ++ [fileName id]) t t := .refl (h.files id)
  rcases h.leads_pathExists now hid with ⟨hlong, f, hasked⟩ | ⟨hshort, hasked⟩
  · exact ⟨_, t, leads_delete hasked.bind_error,
      h.strike hsame fun hshort => absurd hshort (Nat.not_le.mpr hlong)⟩
  · cases hfile : t.lookup (place ++ [fileName id]) with
    | none =>
      rw [hfile] at hasked
      have hremoval : Leads (s.removal id) now t (.ok false) t := hasked.bind (Leads.pure _)
      exact ⟨_, t, leads_delete hremoval, h.strike hsame fun _ => hfile⟩
    | some e =>
      cases e with
      | directory => exact absurd hfile (h.files id)
      | file c =>
        rw [hfile] at hasked
        have hplace : t.locate (s.fileOf id) = .ok (place ++ [fileName id]) := by
          rw [h.locate_fileOf hid, if_neg (Nat.not_lt.mpr hshort)]
        have hremoved : t.removeFile (s.fileOf id) = .ok (t.erase (place ++ [fileName id])) := by
          simp only [removeFile, hplace, hfile, bind, Except.bind, pure, Except.pure]
        have hremoval : Leads (s.removal id) now t (.ok true) (t.erase (place ++ [fileName id])) :=
          Leads.bind hasked (Leads.bind (Leads.change hremoved) (Leads.pure _))
        exact ⟨_, _, leads_delete hremoval, h.strike (changedAt_erase (h.files id)) fun _ =>
          lookup_erase_self (not_surrounding (h.files id))⟩

theorem Reflects.noteSeen (h : Reflects place s t g) (hsound : g.Sound) (now : Moment)
    (hid : Nameable id) (sample : String) :
    ∃ s' r t', Leads (s.noteSeen id sample) now t (.ok (s', r)) t' ∧
      Reflects place s' t' (g.after now (.noteSeen id sample)) := by
  rw [Ledger.after]
  cases hp : g.latest id with
  | none =>
    obtain ⟨r, hfind, rfl | ⟨f, rfl⟩⟩ := h.find?_unknown now hid hp
    · exact ⟨s, .ok (), t, hfind.attempt.bind (Leads.pure _), h⟩
    · exact ⟨s, .error f, t, hfind.attempt.bind (Leads.pure _), h⟩
  | some p =>
    obtain ⟨rfl, -⟩ := hsound.latest hp
    have hnow : Leads Work.now now t (.ok now) t := Acts.now.leads rfl
    obtain ⟨r, t', hsave, -, hnoted⟩ := h.save now (p := p.seen now sample) hid
    exact ⟨_, r, t', (h.find?_known now hp).attempt.bind (hnow.bind hsave), hnoted⟩

/-! Many calls. -/

def perform (s : PatternStore) : Call → Work PatternStore
  | .save p => do return (← s.save p).1
  | .saveAll ps => do return (← s.saveAll ps).1
  | .delete id => do return (← s.delete id).1
  | .noteSeen id sample => do return (← s.noteSeen id sample).1

def performAll (s : PatternStore) : List (Moment × Call) → Work PatternStore
  | [] => return s
  | c :: calls => do
    modify fun w => { w with now := c.1 }
    (← s.perform c.2).performAll calls

theorem Reflects.perform (h : Reflects place s t g) (hsound : g.Sound) (now : Moment) {c : Call}
    (hc : c.Sound) :
    ∃ s' t', Leads (s.perform c) now t (.ok s') t' ∧ Reflects place s' t' (g.after now c) := by
  cases c with
  | save p =>
    obtain ⟨r, t', hsave, -, hnoted⟩ := h.save now hc
    exact ⟨_, t', hsave.bind (Leads.pure _), hnoted⟩
  | saveAll ps =>
    obtain ⟨s', r, t', hsave, hreflects⟩ := h.saveAll now fun p hp => (hc p hp).1
    exact ⟨s', t', hsave.bind (Leads.pure _), hreflects⟩
  | delete id =>
    obtain ⟨r, t', hdelete, hstruck⟩ := h.delete now hc
    exact ⟨_, t', hdelete.bind (Leads.pure _), hstruck⟩
  | noteSeen id sample =>
    obtain ⟨s', r, t', hseen, hreflects⟩ := h.noteSeen hsound now hc sample
    exact ⟨s', t', hseen.bind (Leads.pure _), hreflects⟩

theorem Reflects.performAll {w : Workspace} (h : Reflects place s w.files g) (hsound : g.Sound)
    {calls : List (Moment × Call)} (hcalls : ∀ c ∈ calls, c.2.Sound) :
    ∃ s' w', s.performAll calls w = (.ok s', w') ∧
      Reflects place s' w'.files (g.afterAll calls) ∧ (g.afterAll calls).Sound := by
  induction calls generalizing s w g with
  | nil => exact ⟨s, w, rfl, h, hsound⟩
  | cons c calls ih =>
    rw [List.forall_mem_cons] at hcalls
    obtain ⟨s', t', hperform, hreflects⟩ := h.perform hsound c.1 hcalls.1
    obtain ⟨v, hrun, -, rfl⟩ := hperform { w with now := c.1 } rfl rfl
    obtain ⟨s'', w', hrest, hend⟩ := ih hreflects (hsound.after c.1 hcalls.1) hcalls.2
    refine ⟨s'', w', ?_, hend⟩
    have hclock : (modify fun w => { w with now := c.1 } : Work Unit) w =
      (.ok (), { w with now := c.1 }) := rfl
    rw [PatternStore.performAll, Work.bind_ok hclock, Work.bind_ok hrun, hrest]

/-! The views. -/

/-- The list of all patterns has the identifiers under which a pattern is found, each once, and with
the occurrences of that pattern. -/
def ViewsAgree (s : PatternStore) (w : Workspace) : Prop :=
  ∃ ps, (s.all w).1 = .ok ps ∧ (ps.map (·.id)).Nodup ∧ ∀ id, Nameable id → ∀ n : Int,
    (∃ p ∈ ps, p.id = id ∧ p.occurrences = n) ↔
      ∃ p, (s.find? id w).1 = .ok (some p) ∧ p.occurrences = n

private theorem Reflects.find?_iff {w : Workspace} (h : Reflects place s w.files g)
    (hid : Nameable id) : (s.find? id w).1 = .ok (some p) ↔ g.latest id = some p := by
  cases hlatest : g.latest id with
  | none =>
    obtain ⟨r, hfind, hr⟩ := h.find?_unknown w.now hid hlatest
    obtain ⟨w', hrun, -⟩ := hfind w rfl rfl
    rw [hrun]
    refine iff_of_false ?_ (by simp)
    rcases hr with rfl | ⟨f, rfl⟩
    · simp
    · simp
  | some q =>
    obtain ⟨w', hrun, -⟩ := h.find?_known w.now hlatest w rfl rfl
    rw [hrun, Except.ok.injEq]

private theorem Reflects.all_eq {w : Workspace} (h : Reflects place s w.files g)
    (hsound : g.Sound) : (s.all w).1 = .ok (g.listed.map Pattern.onRecord) := by
  have hall : Leads s.all w.now w.files (.ok (g.listed.map Pattern.onRecord)) w.files := by
    rcases h.list with ⟨hnone, hempty⟩ | hholds
    · have hasked : Leads (pathExists s.listFile) w.now w.files (.ok _) w.files :=
        Leads.ask (exists_of_locate h.locate_listFile)
      rw [hnone] at hasked
      rw [hempty]
      exact hasked.bind (Leads.pure _)
    · exact leads_all (fun p hp => (hsound.listed p hp).2) hholds
  obtain ⟨w', hrun, -⟩ := hall w rfl rfl
  rw [hrun]

private theorem Reflects.viewsAgree_iff {w : Workspace} (h : Reflects place s w.files g)
    (hsound : g.Sound) : ViewsAgree s w ↔ g.Agrees := by
  have hids : (g.listed.map Pattern.onRecord).map (·.id) = g.listed.map (·.id) := by
    rw [List.map_map]
    rfl
  have hlists (id : String) (n : Int) :
      (∃ p ∈ g.listed.map Pattern.onRecord, p.id = id ∧ p.occurrences = n) ↔ g.Lists id n := by
    simp only [List.mem_map, exists_exists_and_eq_and]
    rfl
  have hfound {id : String} (hid : Nameable id) (n : Int) :
      (∃ p, (s.find? id w).1 = .ok (some p) ∧ p.occurrences = n) ↔
        (g.latest id).map (·.occurrences) = some n := by
    rw [Option.map_eq_some_iff]
    exact exists_congr fun p => and_congr_left fun _ => h.find?_iff hid
  rw [ViewsAgree, h.all_eq hsound]
  constructor
  · rintro ⟨ps, hps, honce, hsame⟩
    obtain rfl := Except.ok.inj hps
    refine ⟨hids ▸ honce, fun id n => ?_⟩
    -- The ledger has no other identifiers, and of those the views say nothing.
    by_cases hid : Nameable id
    · rw [← hlists, hsame id hid, hfound hid]
    · refine iff_of_false ?_ ?_
      · rintro ⟨p, hp, rfl, -⟩
        exact hid (hsound.listed p hp).1
      · intro hn
        obtain ⟨p, hp, -⟩ := Option.map_eq_some_iff.mp hn
        exact hid (hsound.latest hp).2
  · intro hagrees
    refine ⟨_, rfl, hids ▸ hagrees.once, fun id hid n => ?_⟩
    rw [hlists, hagrees.same, hfound hid]

structure Fresh (s : PatternStore) (w : Workspace) : Prop where
  opened : ∃ start, openAt s.folder start = (.ok s, w)
  empty : w.files.list s.folder = .ok []

private theorem Fresh.reflects {w : Workspace} (h : Fresh s w) :
    ∃ place, Reflects place s w.files .blank := by
  obtain ⟨start, hopen⟩ := h.opened
  obtain ⟨words, hmake⟩ := acts_makeDirectoriesTo s.folder s.folder.parts.length start
  rw [openAt, Work.bind_eq_ok_iff] at hopen
  obtain ⟨u, w', hmade, hreturn⟩ := hopen
  obtain ⟨hs, rfl⟩ := Prod.mk.inj hreturn
  have hknown : s.known = [] := by rw [← Except.ok.inj hs]
  rw [Work.makeDirectories, hmake] at hmade
  obtain ⟨hresult, hw⟩ := Prod.mk.inj hmade
  have hdir : w'.files.isDir s.folder = .ok true := by
    rw [← hw]
    exact isDir_of_makeDirectoriesTo hresult
  obtain ⟨place, hlocated, hdirectory⟩ := isDir_eq_true_iff.mp hdir
  have hnames : w'.files.names place = [] := by
    have hempty := h.empty
    simp only [FileTree.list, hlocated, hdirectory, bind, Except.bind] at hempty
    exact Except.ok.inj hempty
  have hnothing {name : String} (hsurrounding : isSurrounding (place ++ [name]) = false) :
      w'.files.lookup (place ++ [name]) = none := by
    by_contra hsome
    have hmem := (mem_names_iff hsurrounding).mpr hsome
    rw [hnames] at hmem
    cases hmem
  have hfile (id : String) : w'.files.lookup (place ++ [fileName id]) = none :=
    hnothing (not_surrounding_child (fileName_ne id (by decide)) (fileName_ne id (by decide))
      (fileName_ne id (by decide)) place)
  have hlist : w'.files.lookup (place ++ [listName]) = none :=
    hnothing (not_surrounding_child (by decide) (by decide) (by decide) place)
  refine ⟨place, ?_⟩
  exact {
    located := hlocated
    directory := hdirectory
    known := fun id => by rw [known?, hknown]; rfl
    files := fun id => by rw [hfile]; simp
    unknown := fun id _ _ => hfile id
    list := Or.inl ⟨hlist, rfl⟩ }

/-- After any calls a pattern is found as it was saved last, the list has the patterns of the last
list that was saved whole, and the two views agree if the ledger of the calls does. They agree all
along exactly if each call leaves the ledger in step. -/
theorem performAll_views {s : PatternStore} {w : Workspace} (h : Fresh s w)
    (calls : List (Moment × Call)) (hcalls : ∀ c ∈ calls, c.2.Sound) :
    (∃ s' w', s.performAll calls w = (.ok s', w') ∧
      (∀ id, Nameable id → ∀ p, (s'.find? id w').1 = .ok (some p) ↔
        (Ledger.blank.afterAll calls).latest id = some p) ∧
      (s'.all w').1 = .ok ((Ledger.blank.afterAll calls).listed.map Pattern.onRecord) ∧
      (ViewsAgree s' w' ↔ (Ledger.blank.afterAll calls).Agrees)) ∧
    ((∀ earlier, earlier <+: calls → ∀ s' w', s.performAll earlier w = (.ok s', w') →
      ViewsAgree s' w') ↔ Ledger.blank.KeptInStep calls) := by
  obtain ⟨place, hblank⟩ := h.reflects
  constructor
  · obtain ⟨s', w', hrun, hreflects, hsound⟩ := hblank.performAll Ledger.sound_blank hcalls
    exact ⟨s', w', hrun, fun id hid p => hreflects.find?_iff hid, hreflects.all_eq hsound,
      hreflects.viewsAgree_iff hsound⟩
  · rw [← Ledger.agrees_all_along_iff Ledger.agrees_blank Ledger.sound_blank hcalls]
    refine forall₂_congr fun earlier hearlier => ?_
    obtain ⟨s', w', hrun, hreflects, hsound⟩ := hblank.performAll Ledger.sound_blank
      fun c hc => hcalls c (hearlier.subset hc)
    rw [← hreflects.viewsAgree_iff hsound]
    constructor
    · exact fun hall => hall s' w' hrun
    · intro hagree s'' w'' hrun'
      obtain ⟨hs, rfl⟩ := Prod.mk.inj (hrun.symm.trans hrun')
      obtain rfl := Except.ok.inj hs
      exact hagree

theorem performAll_views_deleted :
    ∃ s' w', performAll { folder := {} }
        [({ micros := 0 }, .saveAll [exemplified]), ({ micros := 0 }, .delete "p1")]
        { now := { micros := 0 } } = (.ok s', w') ∧
      (∀ p, (s'.find? "p1" w').1 ≠ .ok (some p)) ∧
      (s'.all w').1 = .ok [exemplified.onRecord] ∧ ¬ViewsAgree s' w' := by
  have hid : Nameable "p1" := ⟨by decide, by decide⟩
  have hstart : Moment.OnCalendar { micros := 0 } := ⟨by decide, by decide, by simp⟩
  have hkeep : ∀ p ∈ [exemplified], Keepable p := by simpa using (by decide : Keepable exemplified)
  have hfresh : Fresh { folder := {} } { now := { micros := 0 } } :=
    ⟨⟨{ now := { micros := 0 } }, rfl⟩, rfl⟩
  obtain ⟨⟨s', w', hrun, hfind, hall, hagree⟩, -⟩ := performAll_views hfresh
    [({ micros := 0 }, .saveAll [exemplified]), ({ micros := 0 }, .delete "p1")]
    (by simpa [Call.Sound] using ⟨⟨hid, hstart, hstart⟩, hid⟩)
  have hledger : Ledger.blank.afterAll
      [({ micros := 0 }, .saveAll [exemplified]), ({ micros := 0 }, .delete "p1")] =
      Ledger.strike { Ledger.blank.noteEach [exemplified] with listed := [exemplified] } "p1" := by
    simp only [Ledger.afterAll, List.foldl_cons, List.foldl_nil, Ledger.after, if_pos hkeep]
  rw [hledger] at hfind hall hagree
  refine ⟨s', w', hrun, fun p hp => ?_, hall, fun hviews => ?_⟩
  · have hlatest := (hfind "p1" hid p).mp hp
    rw [Ledger.latest_strike, if_pos rfl] at hlatest
    cases hlatest
  · have hlisted := (hagree.mp hviews).same "p1" 1
    rw [Ledger.latest_strike, if_pos rfl] at hlisted
    cases hlisted.mp ⟨exemplified, List.mem_singleton_self _, rfl, rfl⟩

end SuiteTidy.PatternStore
