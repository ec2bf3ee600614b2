import SuiteTidy.Proofs.Pattern.Record

/-!
Patterns over a restart. A pattern that was saved is found by a store that is opened later in the
same directory, and so are the patterns of a list, but without their examples and without the
patterns that they are related to.
-/

set_option autoImplicit false
set_option relaxedAutoImplicit false

namespace SuiteTidy.PatternStore

open FileTree Work

/-! The names of the files. -/

def fileName (id : String) : String := "pattern_" ++ id ++ ".json"

def listName : String := "all_patterns.json"

/-- An identifier that can stand in the name of a file. -/
structure Nameable (id : String) : Prop where
  slash : '/' ∉ id.toList
  null : '\x00' ∉ id.toList

private theorem toList_fileName (id : String) :
    (fileName id).toList = "pattern_".toList ++ id.toList ++ ".json".toList := by
  rw [fileName, String.toList_append, String.toList_append]

theorem fileName_inj {a b : String} (h : fileName a = fileName b) : a = b := by
  have hlists := congrArg String.toList h
  rw [toList_fileName, toList_fileName] at hlists
  exact String.ext (List.append_cancel_left (List.append_cancel_right hlists))

theorem fileName_ne (id : String) {name : String} (h : name.toList.head? ≠ some 'p') :
    fileName id ≠ name := by
  rintro rfl
  rw [toList_fileName] at h
  exact h rfl

theorem fileName_ne_listName (id : String) : fileName id ≠ listName :=
  fileName_ne id (by decide)

theorem Nameable.oneName {id : String} (h : Nameable id) : OneName (fileName id) where
  slash := by
    rw [toList_fileName, List.mem_append, List.mem_append]
    rintro ((hslash | hslash) | hslash)
    · exact absurd hslash (by decide)
    · exact h.slash hslash
    · exact absurd hslash (by decide)
  null := by
    rw [toList_fileName, List.mem_append, List.mem_append]
    rintro ((hnull | hnull) | hnull)
    · exact absurd hnull (by decide)
    · exact h.null hnull
    · exact absurd hnull (by decide)
  nonempty := fileName_ne id (by decide)
  dot := fileName_ne id (by decide)
  dots := fileName_ne id (by decide)

theorem oneName_listName : OneName listName :=
  ⟨by decide, by decide, by decide, by decide, by decide⟩

/-! Saving. -/

variable {s : PatternStore} {p : Pattern} {ps : List Pattern} {t : FileTree} {now : Moment}

def Fits (t : FileTree) (folder : Path) (p : Pattern) : Prop :=
  p.Writable ∧ t.Room folder (fileName p.id)

theorem leads_save (now : Moment) (hid : Nameable p.id) (hdir : t.isDir s.folder = .ok true)
    (hfits : Fits t s.folder p) :
    ∃ t', Leads (s.save p) now t (.ok (s.remember p, .ok ())) t' ∧
      WroteIn s.folder (fileName p.id) t t' ∧ Json.Holds t' (s.fileOf p.id) p.toDatum := by
  obtain ⟨hwritable, hshort, hfree⟩ := hfits
  obtain ⟨t', hstore, hwrote, hholds⟩ := Json.leads_store now Json.Layout.standard_stored rfl
    hwritable.plain (hid.oneName.fileName hshort) hdir hfree
  exact ⟨t', hstore.attempt.bind (Leads.pure _), hwrote, hholds⟩

theorem leads_save_refused (now : Moment) (hid : Nameable p.id) (hdir : t.isDir s.folder = .ok true)
    (hfits : ¬Fits t s.folder p) :
    ∃ f, Leads (s.save p) now t (.ok (s.remember p, .error f)) t := by
  have hrefused : ¬(Json.Encodable p.toDatum ∧ t.Room s.folder (fileName p.id)) :=
    fun h => hfits ⟨Pattern.writable_of_encodable h.1, h.2⟩
  have hsort : Json.Layout.stored.sortKeys = false := rfl
  obtain ⟨f, hstore⟩ := Json.leads_store_refused now hsort rfl hid.oneName hdir hrefused
  exact ⟨f, hstore.attempt.bind (Leads.pure _)⟩

private theorem leads_saveEach (now : Moment) (hids : ∀ p ∈ ps, Nameable p.id)
    (hdir : t.isDir s.folder = .ok true) :
    ∃ s' r t', Leads (s.saveEach ps) now t (.ok (s', r)) t' ∧ s'.folder = s.folder ∧
      SameDirectories t t' ∧ (r = .ok () ↔ ∀ p ∈ ps, Fits t s.folder p) := by
  induction ps generalizing s t with
  | nil => exact ⟨s, .ok (), t, Leads.pure _, rfl, .refl t, by simp⟩
  | cons p ps ih =>
    rw [List.forall_mem_cons] at hids
    by_cases hfits : Fits t s.folder p
    · obtain ⟨t', hsave, hwrote, -⟩ := leads_save now hids.1 hdir hfits
      have hsame := hwrote.sameDirectories
      obtain ⟨s', r, t'', hrest, hfolder, hsame', hr⟩ :=
        ih (s := s.remember p) hids.2 (isDir_of_keepsDirectories hsame.1 hdir)
      refine ⟨s', r, t'', hsave.bind hrest, hfolder, hsame.trans hsame', ?_⟩
      rw [hr, List.forall_mem_cons, and_iff_right hfits]
      -- No directory has come or gone, so what fits now is what fitted before the first was saved.
      refine forall₂_congr fun q _ => ?_
      rw [Fits, Fits, hsame.room_iff]
      rfl
    · obtain ⟨f, hsave⟩ := leads_save_refused now hids.1 hdir hfits
      refine ⟨s.remember p, .error f, t, hsave.bind (Leads.pure _), rfl, .refl t, ?_⟩
      rw [List.forall_mem_cons]
      constructor
      · intro h
        cases h
      · exact fun h => absurd h.1 hfits

theorem plain_list (h : ∀ p ∈ ps, p.Writable) :
    Json.Plain (.list (ps.map Pattern.toDatum)) := by
  refine Json.plain_list fun d hd => ?_
  obtain ⟨p, hp, rfl⟩ := List.mem_map.mp hd
  exact (h p hp).plain

private theorem leads_saveAll (now : Moment) (hids : ∀ p ∈ ps, Nameable p.id)
    (hdir : t.isDir s.folder = .ok true) :
    ∃ s' r t', Leads (s.saveAll ps) now t (.ok (s', r)) t' ∧
      (r = .ok () ↔ (∀ p ∈ ps, Fits t s.folder p) ∧ t.Room s.folder listName) ∧
      (r = .ok () → SameDirectories t t' ∧
        Json.Holds t' s.listFile (.list (ps.map Pattern.toDatum))) := by
  obtain ⟨s', r, t', heach, hfolder, hsame, hr⟩ := leads_saveEach now hids hdir
  cases r with
  | error f =>
    refine ⟨s', .error f, t', heach.bind (Leads.pure _), ?_, ?_⟩
    · rw [← hr]
      simp
    · intro h
      cases h
  | ok u =>
    have hfits := hr.mp rfl
    have hdir' : t'.isDir s'.folder = .ok true := by
      rw [hfolder]
      exact isDir_of_keepsDirectories hsame.1 hdir
    have hplain := plain_list fun p hp => (hfits p hp).1
    have hroom : t'.Room s'.folder listName ↔ t.Room s.folder listName := by
      rw [hfolder, hsame.room_iff]
    by_cases hlist : t'.Room s'.folder listName
    · obtain ⟨t'', hstore, hwrote, hholds⟩ := Json.leads_store now Json.Layout.standard_stored rfl
        hplain (oneName_listName.fileName hlist.1) hdir' hlist.2
      refine ⟨s', .ok (), t'', heach.bind (hstore.attempt.bind (Leads.pure _)), ?_, fun _ => ?_⟩
      · exact iff_of_true rfl ⟨hfits, hroom.mp hlist⟩
      · rw [hfolder] at hholds
        exact ⟨hsame.trans hwrote.sameDirectories, hholds⟩
    · have hsort : Json.Layout.stored.sortKeys = false := rfl
      obtain ⟨f, hstore⟩ := Json.leads_store_refused now hsort rfl
        (d := .list (ps.map Pattern.toDatum)) oneName_listName hdir' fun h => hlist h.2
      refine ⟨s', .error f, t', heach.bind (hstore.attempt.bind (Leads.pure _)), ?_, ?_⟩
      · refine iff_of_false (by simp) fun h => hlist (hroom.mpr h.2)
      · intro h
        cases h

/-! Opening the directory again. -/

def reopened {α : Type} (folder : Path) (question : PatternStore → Work α) : Work α := do
  question (← openAt folder)

private theorem leads_reopened {α : Type} {folder : Path} {question : PatternStore → Work α}
    {r : Except Fault α} (hdir : t.isDir folder = .ok true)
    (h : Leads (question { folder }) now t r t) : Leads (reopened folder question) now t r t := by
  have hmake : Leads (makeDirectories folder) now t (.ok ()) t :=
    (acts_makeDirectoriesTo folder folder.parts.length).leads (makeDirectoriesTo_of_isDir hdir)
  have hopen : Leads (openAt folder) now t (.ok { folder }) t := hmake.bind (Leads.pure _)
  exact hopen.bind h

private theorem leads_find? {folder : Path} (hdated : p.Dated)
    (hholds : Json.Holds t (fileOf { folder } p.id) p.toDatum) :
    Leads (find? { folder } p.id) now t (.ok (some p.onRecord)) t := by
  have hasked : Leads (pathExists (fileOf { folder } p.id)) now t (.ok true) t :=
    Leads.ask hholds.exists_
  exact hasked.bind (hholds.leads_loadStrict.bind
    ((Leads.lift (Pattern.ofDatum_toDatum hdated)).bind (Leads.pure _)))

theorem leads_all (hdated : ∀ p ∈ ps, p.Dated)
    (hholds : Json.Holds t s.listFile (.list (ps.map Pattern.toDatum))) :
    Leads s.all now t (.ok (ps.map Pattern.onRecord)) t := by
  have hasked : Leads (pathExists s.listFile) now t (.ok true) t := Leads.ask hholds.exists_
  refine hasked.bind (hholds.leads_loadStrict.bind ((Leads.lift rfl).bind (Leads.mapM ?_)))
  rw [List.forall₂_map_left_iff, List.forall₂_map_right_iff, List.forall₂_same]
  exact fun p hp => Leads.lift (Pattern.ofDatum_toDatum (hdated p hp))

/-- A pattern that was saved, and a list of patterns that was saved, come back after a restart
without examples and related patterns, so that they are what they were exactly if they had none. -/
theorem reopened_saved (s : PatternStore) (w : Workspace)
    (hdir : w.files.isDir s.folder = .ok true) :
    (∀ p : Pattern, Nameable p.id → p.Dated →
      ∃ r w', s.save p w = (.ok (s.remember p, r), w') ∧
        (r = .ok () ↔ Fits w.files s.folder p) ∧ (r ≠ .ok () → w'.files = w.files) ∧
        (r = .ok () → ∀ v, v.files = w'.files →
          (reopened s.folder (·.find? p.id) v).1 = .ok (some p.onRecord)) ∧
        (p.onRecord = p ↔ p.examples = [] ∧ p.related = [])) ∧
    (∀ ps : List Pattern, (∀ p ∈ ps, Nameable p.id ∧ p.Dated) →
      ∃ s' r w', s.saveAll ps w = (.ok (s', r), w') ∧
        (r = .ok () ↔ (∀ p ∈ ps, Fits w.files s.folder p) ∧ w.files.Room s.folder listName) ∧
        (r = .ok () → ∀ v, v.files = w'.files →
          (reopened s.folder all v).1 = .ok (ps.map Pattern.onRecord)) ∧
        (ps.map Pattern.onRecord = ps ↔ ∀ p ∈ ps, p.examples = [] ∧ p.related = [])) := by
  constructor
  · intro p hid hdated
    by_cases hfits : Fits w.files s.folder p
    · obtain ⟨t', hsave, hwrote, hholds⟩ := leads_save w.now hid hdir hfits
      obtain ⟨w', hrun, -, hfiles⟩ := hsave w rfl rfl
      refine ⟨_, w', hrun, iff_of_true rfl hfits, fun h => absurd rfl h, fun _ v hv => ?_,
        Pattern.onRecord_eq_self_iff⟩
      have hdir' := isDir_of_keepsDirectories hwrote.sameDirectories.1 hdir
      have hfind : Leads (reopened s.folder (·.find? p.id)) v.now t' (.ok (some p.onRecord)) t' :=
        leads_reopened hdir' (leads_find? hdated hholds)
      obtain ⟨v', hfound, -⟩ := hfind v rfl (hv.trans hfiles)
      rw [hfound]
    · obtain ⟨f, hsave⟩ := leads_save_refused w.now hid hdir hfits
      obtain ⟨w', hrun, -, hfiles⟩ := hsave w rfl rfl
      refine ⟨_, w', hrun, iff_of_false (by simp) hfits, fun _ => hfiles, ?_,
        Pattern.onRecord_eq_self_iff⟩
      intro h
      cases h
  · intro ps hps
    obtain ⟨s', r, t', hsave, hr, hheld⟩ := leads_saveAll w.now (fun p hp => (hps p hp).1) hdir
    obtain ⟨w', hrun, -, hfiles⟩ := hsave w rfl rfl
    refine ⟨s', r, w', hrun, hr, fun hok v hv => ?_, Pattern.map_onRecord_eq_self_iff⟩
    obtain ⟨hsame, hholds⟩ := hheld hok
    have hall : Leads (reopened s.folder all) v.now t' (.ok (ps.map Pattern.onRecord)) t' :=
      leads_reopened (isDir_of_keepsDirectories hsame.1 hdir)
        (leads_all (fun p hp => (hps p hp).2) hholds)
    obtain ⟨v', hfound, -⟩ := hall v rfl (hv.trans hfiles)
    rw [hfound]

def exemplified : Pattern :=
  { id := "p1", kind := .structure_, name := "n", description := "d", examples := ["e"],
    occurrences := 1, discoveredAt := { micros := 0 }, lastSeen := { micros := 0 } }

theorem reopened_saved_exemplified :
    (∃ s' w', save { folder := {} } exemplified { now := { micros := 0 } } =
        (.ok (s', .ok ()), w') ∧
      ∀ v, v.files = w'.files →
        (reopened {} (·.find? "p1") v).1 = .ok (some { exemplified with examples := [] })) ∧
    (∃ s' w', saveAll { folder := {} } [exemplified] { now := { micros := 0 } } =
        (.ok (s', .ok ()), w') ∧
      ∀ v, v.files = w'.files →
        (reopened {} all v).1 = .ok [{ exemplified with examples := [] }]) := by
  have hplace : FileTree.locate {} {} = .ok [] := rfl
  have htop : FileTree.lookup {} [] = some .directory := rfl
  have hid : Nameable "p1" := ⟨by decide, by decide⟩
  have hdated : exemplified.Dated := by
    have hstart : Moment.OnCalendar { micros := 0 } := ⟨by decide, by decide, by simp⟩
    exact ⟨hstart, hstart⟩
  have hlist : Room {} {} listName := by
    refine (oneName_listName.room_iff hplace htop).mpr ⟨by decide, ?_⟩
    rintro ⟨⟩
  have hfits : Fits {} {} exemplified := by
    refine ⟨by decide, (hid.oneName.room_iff hplace htop).mpr ⟨by decide, ?_⟩⟩
    rintro ⟨⟩
  obtain ⟨hsaved, hlisted⟩ := reopened_saved { folder := {} } { now := { micros := 0 } } rfl
  constructor
  · obtain ⟨r, w', hsave, hr, -, hfound, -⟩ := hsaved exemplified hid hdated
    obtain rfl := hr.mpr hfits
    exact ⟨_, w', hsave, hfound rfl⟩
  · obtain ⟨s', r, w', hsave, hr, hfound, -⟩ := hlisted [exemplified] (by simpa using ⟨hid, hdated⟩)
    obtain rfl := hr.mpr ⟨by simpa using hfits, hlist⟩
    exact ⟨s', w', hsave, hfound rfl⟩

end SuiteTidy.PatternStore
