import SuiteTidy.Cache.Store
import SuiteTidy.Proofs.Files.Listing
import SuiteTidy.Proofs.Workspace
import Mathlib.Data.List.Nodup
import Mathlib.Data.Set.List

/-!
What a cache holds, in memory by key and in its directory by file name. A cache shows such a view if
its directory is there and every file in it with the ending of cache files holds an entry. Keeping,
dropping, storing and discarding an entry change the cache as they change the view.
-/

set_option autoImplicit false
set_option relaxedAutoImplicit false

namespace SuiteTidy.Cache

/-! The names of cache files. -/

def nameOf (key : String) : String := Path.flatName key ++ ending

def Storable (key : String) : Prop :=
  '\x00' ∉ key.toList ∧ (nameOf key).utf8ByteSize ≤ FileTree.nameLimit

/-- A key whose file cannot even be looked for. -/
def Overlong (key : String) : Prop :=
  '\x00' ∉ key.toList ∧ FileTree.nameLimit < (nameOf key).utf8ByteSize

instance (key : String) : Decidable (Storable key) := inferInstanceAs (Decidable (_ ∧ _))

instance (key : String) : Decidable (Overlong key) := inferInstanceAs (Decidable (_ ∧ _))

theorem Storable.not_overlong {key : String} (h : Storable key) : ¬Overlong key := by
  intro hlong
  have hfits := h.2
  have hexceeds := hlong.2
  omega

private theorem toList_nameOf (key : String) :
    (nameOf key).toList =
      key.toList.map (fun c => if c = '/' || c = '\\' then '_' else c) ++ ending.toList := by
  simp [nameOf, Path.flatName]

private theorem slash_not_mem_nameOf (key : String) : '/' ∉ (nameOf key).toList := by
  rw [toList_nameOf, List.mem_append, not_or]
  refine ⟨?_, by decide⟩
  simp only [List.mem_map, not_exists, not_and]
  intro c _ hc
  by_cases hslash : c = '/'
  · subst hslash
    exact absurd hc (by decide)
  · by_cases hback : c = '\\'
    · subst hback
      exact absurd hc (by decide)
    · simp [hslash, hback] at hc

private theorem null_mem_nameOf_iff {key : String} :
    '\x00' ∈ (nameOf key).toList ↔ '\x00' ∈ key.toList := by
  have hending : '\x00' ∉ ending.toList := by decide
  rw [toList_nameOf, List.mem_append, or_iff_left hending, List.mem_map]
  constructor
  · rintro ⟨c, hc, hnull⟩
    by_cases hflat : (c = '/' || c = '\\') = true
    · rw [if_pos hflat] at hnull
      exact absurd hnull (by decide)
    · rw [if_neg hflat] at hnull
      exact hnull ▸ hc
  · exact fun h => ⟨_, h, by decide⟩

theorem nameOf_inj {key other : String} :
    nameOf key = nameOf other ↔ Path.flatName key = Path.flatName other :=
  String.append_left_inj ending

theorem Storable.congr {key other : String} (h : Storable key) (hname : nameOf key = nameOf other) :
    Storable other := by
  refine ⟨?_, hname ▸ h.2⟩
  rw [← null_mem_nameOf_iff, ← hname, null_mem_nameOf_iff]
  exact h.1

private theorem endsWith_iff {name : String} :
    name.endsWith ending = true ↔ ending.toList <:+ name.toList := by
  rw [← String.endsWith_toSlice, String.Slice.endsWith_string_iff, String.copy_toSlice]

private theorem endsWith_nameOf (key : String) : (nameOf key).endsWith ending = true := by
  rw [endsWith_iff, toList_nameOf]
  exact List.suffix_append _ _

private theorem ne_of_endsWith {name other : String} (h : name.endsWith ending = true)
    (hshort : other.toList.length < 6) : name ≠ other := by
  rintro rfl
  have hlength := (endsWith_iff.mp h).length_le
  have hending : ending.toList.length = 6 := by decide
  omega

theorem not_surrounding_child {name : String} (h : name.endsWith ending = true) (place : Place) :
    FileTree.isSurrounding (place ++ [name]) = false :=
  FileTree.not_surrounding_child (ne_of_endsWith h (by decide)) (ne_of_endsWith h (by decide))
    (ne_of_endsWith h (by decide)) place

private theorem fileOf_eq (c : Cache) (key : String) :
    c.fileOf key = { c.folder with parts := c.folder.parts ++ [nameOf key] } :=
  Path.below_eq (slash_not_mem_nameOf key) (ne_of_endsWith (endsWith_nameOf key) (by decide))
    (ne_of_endsWith (endsWith_nameOf key) (by decide))

/-! Entries in memory. -/

private theorem find_place (key : String) (e : CacheEntry) (other : String)
    (l : List (String × CacheEntry)) :
    (remember.place key e l).find? (·.1 == other) =
      if other = key then some (key, e) else l.find? (·.1 == other) := by
  induction l with
  | nil =>
    by_cases ho : other = key
    · simp [remember.place, ho]
    · simp [remember.place, ho, Ne.symm ho]
  | cons x rest ih =>
    obtain ⟨k, old⟩ := x
    by_cases hk : k = key
    · subst hk
      by_cases ho : other = k
      · simp [remember.place, ho]
      · simp [remember.place, ho, Ne.symm ho]
    · by_cases ho : k = other
      · subst ho
        simp [remember.place, hk]
      · simp [remember.place, hk, ho, ih]

private theorem known_remember (c : Cache) (key : String) (e : CacheEntry) (other : String) :
    (c.remember key e).known? other = if other = key then some e else c.known? other := by
  rw [known?, remember, find_place]
  split_ifs <;> rfl

private theorem known_forget (c : Cache) (key other : String) :
    (c.forget key).known? other = if other = key then none else c.known? other := by
  rw [known?, forget, List.find?_filter]
  by_cases ho : other = key
  · subst ho
    simp
  · rw [if_neg ho, known?]
    congr 2
    funext x
    by_cases hx : x.1 = other
    · simp [hx, ho]
    · simp [hx]

private theorem mem_keys_place {key : String} {e : CacheEntry} {l : List (String × CacheEntry)}
    {other : String} (h : other ∈ (remember.place key e l).map Prod.fst) :
    other = key ∨ other ∈ l.map Prod.fst := by
  induction l with
  | nil => simpa [remember.place] using h
  | cons x rest ih =>
    obtain ⟨k, old⟩ := x
    rw [remember.place] at h
    split_ifs at h with hk
    · exact .inr h
    · rcases List.mem_cons.mp h with hother | hother
      · exact .inr (hother ▸ List.mem_cons_self)
      · exact (ih hother).imp_right (List.mem_cons_of_mem _)

private theorem nodup_place (key : String) (e : CacheEntry) {l : List (String × CacheEntry)}
    (h : (l.map Prod.fst).Nodup) : ((remember.place key e l).map Prod.fst).Nodup := by
  induction l with
  | nil => simp [remember.place]
  | cons x rest ih =>
    obtain ⟨k, old⟩ := x
    obtain ⟨hfirst, hrest⟩ := List.nodup_cons.mp h
    rw [remember.place]
    split_ifs with hk
    · exact h
    · refine List.nodup_cons.mpr ⟨fun hmem => ?_, ih hrest⟩
      rcases mem_keys_place hmem with heq | hold
      · exact hk heq
      · exact hfirst hold

theorem known_eq_some_iff {c : Cache} (h : (c.memory.map Prod.fst).Nodup) {key : String}
    {e : CacheEntry} : c.known? key = some e ↔ (key, e) ∈ c.memory := by
  rw [known?, Option.map_eq_some_iff]
  constructor
  · rintro ⟨⟨k, x⟩, hfind, rfl⟩
    obtain rfl : k = key := by simpa using List.find?_some hfind
    exact List.mem_of_find?_eq_some hfind
  · intro hmem
    cases hfind : c.memory.find? (·.1 == key) with
    | none => simpa using List.find?_eq_none.mp hfind _ hmem
    | some x =>
      have hkey : x.1 = key := by simpa using List.find?_some hfind
      exact ⟨x, rfl, congrArg Prod.snd
        (List.inj_on_of_nodup_map h (List.mem_of_find?_eq_some hfind) hmem hkey)⟩

/-! Views of a cache. -/

/-- What a cache holds: its entries in memory by key and those in files by name, with the time and
the hours that a value is kept by default. -/
@[ext]
structure View where
  now : Moment
  hours : Datum
  memory : String → Option CacheEntry
  files : String → Option CacheEntry

namespace View

def keep (v : View) (key : String) (e : CacheEntry) : View :=
  { v with memory := fun other => if other = key then some e else v.memory other }

def drop (v : View) (key : String) : View :=
  { v with memory := fun other => if other = key then none else v.memory other }

def store (v : View) (key : String) (e : CacheEntry) : View :=
  { v with files := fun name => if name = nameOf key then some e else v.files name }

def discard (v : View) (key : String) : View :=
  { v with files := fun name => if name = nameOf key then none else v.files name }

/-- The view after the files of some names were looked through, and only those stayed whose entry
passed a test. -/
def sift (v : View) (names : List String) (stays : CacheEntry → Bool) : View :=
  { v with files := fun name => if name ∈ names then (v.files name).filter stays else v.files name }

end View

def stored (e : CacheEntry) : Entry := .file (.packed e.pack)

private theorem unpack_pack (e : CacheEntry) : CacheEntry.unpack? e.pack = some e := rfl

structure Shows (place : Place) (c : Cache) (w : Workspace) (v : View) : Prop where
  now : w.now = v.now
  hours : c.hours = v.hours
  located : w.files.locate c.folder = .ok place
  directory : w.files.lookup place = some .directory
  ordered : w.files.Ordered
  distinct : (c.memory.map Prod.fst).Nodup
  known : ∀ key, c.known? key = v.memory key
  found : ∀ name, name.endsWith ending = true →
    w.files.lookup (place ++ [name]) = (v.files name).map stored
  named : ∀ name e, v.files name = some e → ∃ key, Storable key ∧ nameOf key = name
  keyed : ∀ key e, v.memory key = some e → Storable key

section Shown

variable {place : Place} {c : Cache} {w : Workspace} {v : View}

private theorem Shows.files_eq_none (h : Shows place c w v) {key : String} (hkey : ¬Storable key) :
    v.files (nameOf key) = none := by
  rw [Option.eq_none_iff_forall_ne_some]
  intro e he
  obtain ⟨other, hother, hname⟩ := h.named _ e he
  exact hkey (hother.congr hname)

theorem Shows.locate_fileOf (h : Shows place c w v) (key : String) :
    w.files.locate (c.fileOf key) =
      if '\x00' ∈ key.toList then .error .nullCharacter
      else if FileTree.nameLimit < (nameOf key).utf8ByteSize then
        .error (.nameTooLong (c.fileOf key))
      else .ok (place ++ [nameOf key]) := by
  have hdots : nameOf key ≠ ".." := ne_of_endsWith (endsWith_nameOf key) (by decide)
  rw [fileOf_eq, FileTree.locate_child h.located h.directory hdots]
  simp only [null_mem_nameOf_iff]

private theorem Shows.locate_of_storable (h : Shows place c w v) {key : String}
    (hkey : Storable key) : w.files.locate (c.fileOf key) = .ok (place ++ [nameOf key]) := by
  rw [h.locate_fileOf, if_neg hkey.1, if_neg (Nat.not_lt.mpr hkey.2)]

theorem Shows.exists_fileOf (h : Shows place c w v) {key : String} (hkey : ¬Overlong key) :
    w.files.exists_ (c.fileOf key) = .ok (v.files (nameOf key)).isSome := by
  by_cases hstorable : Storable key
  · have hlocate := h.locate_of_storable hstorable
    have hfound := h.found _ (endsWith_nameOf key)
    cases hfile : v.files (nameOf key) <;>
      simp [FileTree.exists_, FileTree.status, FileTree.entry, hlocate, hfound, hfile, bind,
        Except.bind, pure, Except.pure]
  · have hnull : '\x00' ∈ key.toList := by
      by_contra hnull
      rw [Storable, and_iff_right hnull, Nat.not_le] at hstorable
      exact hkey ⟨hnull, hstorable⟩
    rw [h.files_eq_none hstorable]
    simp [FileTree.exists_, FileTree.status, FileTree.entry, h.locate_fileOf, hnull, bind,
      Except.bind, pure, Except.pure]

theorem Shows.exists_of_overlong (h : Shows place c w v) {key : String} (hkey : Overlong key) :
    w.files.exists_ (c.fileOf key) = .error (.nameTooLong (c.fileOf key)) := by
  simp [FileTree.exists_, FileTree.status, FileTree.entry, h.locate_fileOf, hkey.1, hkey.2, bind,
    Except.bind]

theorem Shows.storable (h : Shows place c w v) {key : String} {e : CacheEntry}
    (he : v.files (nameOf key) = some e) : Storable key := by
  by_contra hkey
  rw [h.files_eq_none hkey] at he
  cases he

theorem Shows.readEntry_fileOf (h : Shows place c w v) {key : String} {e : CacheEntry}
    (he : v.files (nameOf key) = some e) : readEntry (c.fileOf key) w = (.ok (some e), w) := by
  have hfound := h.found _ (endsWith_nameOf key)
  rw [he] at hfound
  have hread : w.files.readContent (c.fileOf key) = .ok (.packed e.pack) :=
    FileTree.readContent_eq_ok_iff.mpr ⟨_, h.locate_of_storable (h.storable he), hfound⟩
  rw [readEntry, Work.bind_ok (Work.files_apply w), hread]
  dsimp only
  rw [unpack_pack]
  rfl

/-! What changes the cache changes the view. -/

theorem Shows.remember (h : Shows place c w v) {key : String} (hkey : Storable key)
    (e : CacheEntry) : Shows place (c.remember key e) w (v.keep key e) where
  now := h.now
  hours := h.hours
  located := h.located
  directory := h.directory
  ordered := h.ordered
  distinct := nodup_place key e h.distinct
  known other := by
    rw [known_remember, h.known]
    rfl
  found := h.found
  named := h.named
  keyed other x hx := by
    simp only [View.keep] at hx
    split_ifs at hx with ho
    · exact ho ▸ hkey
    · exact h.keyed other x hx

theorem Shows.forget (h : Shows place c w v) (key : String) :
    Shows place (c.forget key) w (v.drop key) where
  now := h.now
  hours := h.hours
  located := h.located
  directory := h.directory
  ordered := h.ordered
  distinct := h.distinct.sublist (List.filter_sublist.map _)
  known other := by
    rw [known_forget, h.known]
    rfl
  found := h.found
  named := h.named
  keyed other x hx := by
    simp only [View.drop] at hx
    split_ifs at hx with ho
    exact h.keyed other x hx

theorem Shows.empty (h : Shows place c w v) (hours : Datum) :
    Shows place { c with hours, memory := [] } w { v with hours, memory := fun _ => none } where
  now := h.now
  hours := rfl
  located := h.located
  directory := h.directory
  ordered := h.ordered
  distinct := List.nodup_nil
  known _ := rfl
  found := h.found
  named := h.named
  keyed _ _ hx := by cases hx

theorem Shows.filter (h : Shows place c w v) (stays : CacheEntry → Bool) :
    Shows place { c with memory := c.memory.filter fun x => stays x.2 } w
      { v with memory := fun key => (v.memory key).filter stays } where
  now := h.now
  hours := h.hours
  located := h.located
  directory := h.directory
  ordered := h.ordered
  distinct := h.distinct.sublist (List.filter_sublist.map _)
  known key := by
    have hdistinct : ((c.memory.filter fun x => stays x.2).map Prod.fst).Nodup :=
      h.distinct.sublist (List.filter_sublist.map _)
    ext e
    rw [known_eq_some_iff hdistinct, List.mem_filter, ← known_eq_some_iff h.distinct, h.known,
      Option.filter_eq_some_iff]
  found := h.found
  named := h.named
  keyed key e he := h.keyed key e (Option.filter_eq_some_iff.mp he).1

theorem Shows.congr (h : Shows place c w v) (w' : Workspace) (hfiles : w'.files = w.files) :
    Shows place c w' { v with now := w'.now } where
  now := rfl
  hours := h.hours
  located := hfiles ▸ h.located
  directory := hfiles ▸ h.directory
  ordered := hfiles ▸ h.ordered
  distinct := h.distinct
  known := h.known
  found := hfiles ▸ h.found
  named := h.named
  keyed := h.keyed

private theorem Shows.setFile (h : Shows place c w v) {key : String} {t : FileTree}
    {entry : Option CacheEntry} (hkey : Storable key) (hkeeps : w.files.KeepsDirectories t)
    (hordered : t.Ordered) (hself : t.lookup (place ++ [nameOf key]) = entry.map stored)
    (hothers : ∀ other, other ≠ place ++ [nameOf key] → t.lookup other = w.files.lookup other) :
    Shows place c { w with files := t }
      { v with files := fun name => if name = nameOf key then entry else v.files name } where
  now := h.now
  hours := h.hours
  located := FileTree.locate_eq_ok hkeeps h.located
  directory := hkeeps _ h.directory
  ordered := hordered
  distinct := h.distinct
  known := h.known
  found name hname := by
    by_cases hn : name = nameOf key
    · simp only [hn, if_true]
      exact hself
    · simp only [hn, if_false]
      rw [← h.found name hname]
      exact hothers _ (by simpa using hn)
  named name e he := by
    by_cases hn : name = nameOf key
    · exact ⟨key, hkey, hn.symm⟩
    · simp only [hn, if_false] at he
      exact h.named name e he
  keyed := h.keyed

private theorem Shows.lookup_ne_directory (h : Shows place c w v) (key : String) :
    w.files.lookup (place ++ [nameOf key]) ≠ some .directory := by
  rw [h.found _ (endsWith_nameOf key)]
  cases v.files (nameOf key) <;> simp [stored]

theorem Shows.writeContent_fileOf (h : Shows place c w v) {key : String} (hkey : Storable key)
    (e : CacheEntry) :
    ∃ t, w.files.writeContent (c.fileOf key) (.packed e.pack) = .ok t ∧
      Shows place c { w with files := t } (v.store key e) := by
  have hplace := h.locate_of_storable hkey
  have hnone := h.lookup_ne_directory key
  refine ⟨w.files.put (place ++ [nameOf key]) (stored e), ?_, ?_⟩
  · have hfound := h.found _ (endsWith_nameOf key)
    have hdirectory := h.directory
    cases hfile : v.files (nameOf key) <;>
      simp [FileTree.writeContent, hplace, hfound, hfile, hdirectory, stored, bind, Except.bind,
        pure, Except.pure]
  · exact h.setFile hkey (FileTree.keepsDirectories_put hnone _)
      (FileTree.ordered_put h.ordered _ _)
      (FileTree.lookup_put_self (FileTree.not_surrounding hnone) _)
      fun other hne => FileTree.lookup_put_of_ne _ hne _

theorem Shows.writeContent_refused (h : Shows place c w v) {key : String} (hkey : ¬Storable key)
    (content : Content) : ∃ f, w.files.writeContent (c.fileOf key) content = .error f := by
  rw [FileTree.writeContent, h.locate_fileOf]
  split_ifs with hnull hlong
  · exact ⟨_, rfl⟩
  · exact ⟨_, rfl⟩
  · exact absurd ⟨hnull, Nat.not_lt.mp hlong⟩ hkey

theorem Shows.removeFile_fileOf (h : Shows place c w v) {key : String} {e : CacheEntry}
    (he : v.files (nameOf key) = some e) :
    ∃ t, w.files.removeFile (c.fileOf key) = .ok t ∧
      Shows place c { w with files := t } (v.discard key) := by
  have hkey := h.storable he
  have hnone := h.lookup_ne_directory key
  refine ⟨w.files.erase (place ++ [nameOf key]), ?_, ?_⟩
  · have hfound := h.found _ (endsWith_nameOf key)
    simp [FileTree.removeFile, h.locate_of_storable hkey, hfound, he, stored, bind, Except.bind,
      pure, Except.pure]
  · exact h.setFile hkey (FileTree.keepsDirectories_erase hnone)
      (FileTree.ordered_erase h.ordered _)
      (FileTree.lookup_erase_self (FileTree.not_surrounding hnone))
      fun other hne => FileTree.lookup_erase_of_ne _ hne

/-! All files of a cache. -/

theorem Shows.filesOf (h : Shows place c w v) :
    ∃ keys : List String, c.filesOf w = (.ok (keys.map c.fileOf), w) ∧ (keys.map nameOf).Nodup ∧
      ∀ name, name ∈ keys.map nameOf ↔ v.files name ≠ none := by
  have hlist : w.files.list c.folder = .ok (w.files.names place) := by
    simp [FileTree.list, h.located, h.directory, bind, Except.bind, pure, Except.pure]
  -- A listed name with the ending is the name of a key, since only entries have such names.
  have hmem : ∀ name, name ∈ (w.files.names place).filter (·.endsWith ending) ↔
      v.files name ≠ none := by
    intro name
    rw [List.mem_filter]
    constructor
    · rintro ⟨hname, hend⟩
      rw [FileTree.mem_names_iff (not_surrounding_child hend place), h.found name hend] at hname
      simpa using hname
    · intro hfile
      obtain ⟨e, he⟩ := Option.ne_none_iff_exists'.mp hfile
      obtain ⟨key, -, rfl⟩ := h.named name e he
      have hend := endsWith_nameOf key
      refine ⟨?_, hend⟩
      rw [FileTree.mem_names_iff (not_surrounding_child hend place), h.found _ hend, he]
      simp
  obtain ⟨keys, hkeys⟩ : (w.files.names place).filter (·.endsWith ending) ∈
      Set.range (List.map nameOf) := by
    rw [Set.range_list_map]
    intro name hname
    obtain ⟨e, he⟩ := Option.ne_none_iff_exists'.mp ((hmem name).mp hname)
    obtain ⟨key, -, hkey⟩ := h.named name e he
    exact ⟨key, hkey⟩
  refine ⟨keys, ?_, ?_, ?_⟩
  · have hpaths : (keys.map nameOf).map c.folder.below = keys.map c.fileOf := by
      rw [List.map_map]
      rfl
    rw [Cache.filesOf, Work.bind_ok (Work.files_apply w), hlist, ← hpaths, hkeys]
    rfl
  · rw [hkeys]
    exact (FileTree.nodup_names h.ordered place).filter _
  · intro name
    rw [hkeys]
    exact hmem name

end Shown

end SuiteTidy.Cache
