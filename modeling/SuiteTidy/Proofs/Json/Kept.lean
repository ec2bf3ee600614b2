import SuiteTidy.Proofs.Files.Held
import SuiteTidy.Proofs.Files.Listing
import SuiteTidy.Proofs.Json.Document

/-!
Documents that are kept in directories. A value that can be read back is stored in a directory under
any name at which no directory stands, and it stays there while directories are made and files of
other names are written.
-/

set_option autoImplicit false
set_option relaxedAutoImplicit false

namespace SuiteTidy.FileTree

/-- A directory that is there, or can be made with all above it, and the files after that. Nothing
stands in the way of files with some names in it. -/
structure CanKeep (t : FileTree) (folder : Path) (names : List String) (found : FileTree) :
    Prop where
  made : makeDirectoriesTo folder folder.parts.length t = (.ok (), found)
  free : ∀ name ∈ names, found.isDir (folder.below name) ≠ .ok true

def WroteIn (folder : Path) (name : String) (t t' : FileTree) : Prop :=
  ∃ place c, t.locate folder = .ok place ∧ t.lookup (place ++ [name]) ≠ some .directory ∧
    t' = t.put (place ++ [name]) (.file c)

variable {t t' : FileTree} {folder other : Path} {name kept : String}

theorem CanKeep.ensured_eq {names : List String} (h : CanKeep t folder names t') :
    t.ensured folder = t' := by
  rw [ensured, h.made]

theorem CanKeep.isDir {names : List String} (h : CanKeep t folder names t') :
    t'.isDir folder = .ok true := by
  rw [← h.ensured_eq]
  exact isDir_of_makeDirectoriesTo (by rw [h.made])

theorem CanKeep.furnished {names : List String} (h : CanKeep t folder names t') :
    Furnished t t' := by
  rw [← h.ensured_eq]
  exact furnished_ensured folder t

theorem WroteIn.sameDirectories (h : WroteIn folder name t t') : SameDirectories t t' := by
  obtain ⟨place, c, -, hfree, rfl⟩ := h
  exact ⟨keepsDirectories_put hfree c, put_keepsDirectories hfree c⟩

private theorem WroteIn.fileAt_eq (h : WroteIn folder name t t') (hne : kept ≠ name)
    (above : Place) : t'.fileAt (above ++ [kept]) = t.fileAt (above ++ [kept]) := by
  obtain ⟨place, c, -, hfree, rfl⟩ := h
  have hapart : above ++ [kept] ≠ place ++ [name] := by
    intro heq
    have hlast := congrArg List.getLast? heq
    simp [hne] at hlast
  rw [fileAt_put_file hfree, if_neg hapart]

/-- What is at one place, where no directory was or is, has changed and nothing else. -/
structure ChangedAt (spot : Place) (t t' : FileTree) : Prop where
  before : t.lookup spot ≠ some .directory
  after : t'.lookup spot ≠ some .directory
  others : ∀ place, place ≠ spot → t'.lookup place = t.lookup place

theorem ChangedAt.refl {spot : Place} (h : t.lookup spot ≠ some .directory) : ChangedAt spot t t :=
  ⟨h, h, fun _ _ => rfl⟩

theorem ChangedAt.sameDirectories {spot : Place} (h : ChangedAt spot t t') :
    SameDirectories t t' := by
  constructor
  · intro place hplace
    have hne : place ≠ spot := fun heq => h.before (heq ▸ hplace)
    rw [h.others place hne, hplace]
  · intro place hplace
    have hne : place ≠ spot := fun heq => h.after (heq ▸ hplace)
    rw [← h.others place hne, hplace]

theorem changedAt_erase {spot : Place} (h : t.lookup spot ≠ some .directory) :
    ChangedAt spot t (t.erase spot) where
  before := h
  after := by
    rw [lookup_erase_self (not_surrounding h)]
    simp
  others _ hne := lookup_erase_of_ne t hne

theorem WroteIn.changedAt (h : WroteIn folder name t t') {place : Place}
    (hplace : t.locate folder = .ok place) : ChangedAt (place ++ [name]) t t' := by
  obtain ⟨found, c, hfound, hfree, rfl⟩ := h
  obtain rfl := Except.ok.inj (hplace.symm.trans hfound)
  refine ⟨hfree, ?_, fun _ hne => lookup_put_of_ne t hne _⟩
  rw [lookup_put_self (not_surrounding hfree)]
  simp

private theorem writeText_below (hname : FileName name) (hdir : t.isDir folder = .ok true)
    (hfree : t.isDir (folder.below name) ≠ .ok true) (s : String) :
    ∃ t', t.writeText (folder.below name) s = .ok t' ∧ WroteIn folder name t t' := by
  obtain ⟨place, hplace, hentry⟩ := isDir_eq_true_iff.mp hdir
  have hchild : t.locate (folder.below name) = .ok (place ++ [name]) := by
    rw [hname.below_eq, locate_child hplace hentry hname.dots, if_neg hname.null,
      if_neg (Nat.not_lt.mpr hname.short)]
  have hplain : t.lookup (place ++ [name]) ≠ some .directory :=
    fun hold => hfree (isDir_eq_true_iff.mpr ⟨_, hchild, hold⟩)
  have habove : t.lookup (place ++ [name]).dropLast = some .directory := by
    rwa [List.dropLast_concat]
  exact ⟨_, writeContent_of_locate hchild hplain habove _, place, _, hplace, hplain, rfl⟩

end SuiteTidy.FileTree

namespace SuiteTidy.Json

open SuiteTidy.FileTree SuiteTidy.Work

def Holds (t : FileTree) (p : Path) (d : Datum) : Prop :=
  ∃ place s, t.locate p = .ok place ∧ t.fileAt place = some (.bytes s.toUTF8) ∧
    '\r' ∉ s.toList ∧ read s = .ok d

variable {t t' : FileTree} {p folder other : Path} {name kept : String} {d : Datum} {now : Moment}

theorem Holds.readContent (h : Holds t p d) :
    ∃ s : String, t.readContent p = .ok (.bytes s.toUTF8) ∧ '\r' ∉ s.toList ∧ read s = .ok d := by
  obtain ⟨place, s, hplace, hfile, hs, hread⟩ := h
  exact ⟨s, readContent_eq_ok_iff.mpr ⟨place, hplace, fileAt_eq_some_iff.mp hfile⟩, hs, hread⟩

theorem Holds.exists_ (h : Holds t p d) : t.exists_ p = .ok true := by
  obtain ⟨s, hcontent, -⟩ := h.readContent
  exact exists_of_readContent hcontent

theorem Holds.loadStrict_eq (h : Holds t p d) {w : Workspace} (hw : w.files = t) :
    loadStrict p w = (.ok d, w) := by
  subst hw
  obtain ⟨s, hcontent, hs, hread⟩ := h.readContent
  have htext : Work.readText p w = (.ok s, w) := Work.ask_ok (readText_of_readContent hs hcontent)
  rw [loadStrict, Work.bind_ok htext, hread]
  rfl

theorem Holds.leads_loadStrict (h : Holds t p d) : Leads (loadStrict p) now t (.ok d) t := by
  intro w hnow hfiles
  exact ⟨w, h.loadStrict_eq hfiles, hnow, hfiles⟩

theorem Holds.furnished (h : Holds t p d) (ht : Furnished t t') : Holds t' p d := by
  obtain ⟨place, s, hplace, hfile, hs⟩ := h
  exact ⟨place, s, locate_eq_ok ht.directories_stay hplace, by rw [ht.same_files, hfile], hs⟩

theorem Holds.wroteIn (hname : FileName kept) (h : Holds t (other.below kept) d)
    (ht : WroteIn folder name t t') (hne : kept ≠ name) : Holds t' (other.below kept) d := by
  obtain ⟨place, s, hplace, hfile, hs⟩ := h
  refine ⟨place, s, locate_eq_ok ht.sameDirectories.1 hplace, ?_, hs⟩
  rw [hname.below_eq] at hplace
  obtain ⟨above, -, rfl⟩ := locate_child_eq_ok hname.dots hplace
  rw [ht.fileAt_eq hne, hfile]

theorem Holds.changedAt (h : Holds t p d) {spot place : SuiteTidy.Place}
    (ht : ChangedAt spot t t') (hplace : t.locate p = .ok place) (hne : place ≠ spot) :
    Holds t' p d := by
  obtain ⟨found, s, hfound, hfile, hs⟩ := h
  obtain rfl := Except.ok.inj (hplace.symm.trans hfound)
  refine ⟨place, s, locate_eq_ok ht.sameDirectories.1 hplace, ?_, hs⟩
  rw [fileAt_eq_some_iff, ht.others place hne]
  exact fileAt_eq_some_iff.mp hfile

theorem leads_store (now : Moment) {layout : Layout} (hlayout : layout.Standard)
    (hsort : layout.sortKeys = false) (hd : Plain d) (hname : FileName name)
    (hdir : t.isDir folder = .ok true) (hfree : t.isDir (folder.below name) ≠ .ok true) :
    ∃ t', Leads (store layout d (folder.below name)) now t (.ok ()) t' ∧ WroteIn folder name t t' ∧
      Holds t' (folder.below name) d := by
  obtain ⟨s, hs, hform⟩ := render_form hlayout hsort hd
  obtain ⟨t', hwritten, hwrote⟩ := writeText_below hname hdir hfree s
  refine ⟨t', ?_, hwrote, ?_⟩
  · exact (Leads.lift (text_of_render hs)).bind (Leads.change hwritten)
  · obtain ⟨place, hplace, hentry⟩ :=
      readContent_eq_ok_iff.mp (readContent_of_writeContent hwritten)
    exact ⟨place, s, hplace, fileAt_eq_some_iff.mpr hentry, hform.return_not_mem, read_form hform⟩

end SuiteTidy.Json
