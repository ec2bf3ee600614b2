import SuiteTidy.Files.Tree
import Mathlib.Data.String.Basic

/-!
Laws of the tree of files. What a place holds after something was put elsewhere is what it held
before, and putting things at two places gives the same tree in either order. A file that was
written can be read back through the path that it was written by, since writing never takes a
directory away.
-/

set_option autoImplicit false
set_option relaxedAutoImplicit false

namespace SuiteTidy

theorem Path.eq_parent_name {p : Path} (h : p.parts ≠ []) :
    p = { p.parent with parts := p.parent.parts ++ [p.name] } := by
  have hparts : p.parent.parts ++ [p.name] = p.parts := by
    rw [Path.name, List.getLast?_eq_getLast_of_ne_nil h]
    exact List.dropLast_concat_getLast h
  rw [hparts]
  rfl

namespace FileTree

/-! The order of places. -/

theorem placeBefore_irrefl (a : Place) : placeBefore a a = false := by
  induction a with
  | nil => rfl
  | cons x a ih => simpa [placeBefore] using ih

theorem placeBefore_trans {a b c : Place} (hab : placeBefore a b = true)
    (hbc : placeBefore b c = true) : placeBefore a c = true := by
  induction a generalizing b c with
  | nil =>
    cases b <;> cases c <;> simp_all [placeBefore]
  | cons x a ih =>
    cases b with
    | nil => simp [placeBefore] at hab
    | cons y b =>
      cases c with
      | nil => simp [placeBefore] at hbc
      | cons z c =>
        simp only [placeBefore] at hab hbc ⊢
        split_ifs at hab hbc ⊢ <;> grind

theorem placeBefore_total {a b : Place} (hne : a ≠ b) (hab : placeBefore a b = false) :
    placeBefore b a = true := by
  induction a generalizing b with
  | nil => cases b <;> simp_all [placeBefore]
  | cons x a ih =>
    cases b with
    | nil => rfl
    | cons y b =>
      by_cases hxy : x = y
      · subst hxy
        simp only [placeBefore, if_true] at hab ⊢
        exact ih (fun h => hne (by rw [h])) hab
      · simp only [placeBefore, if_neg hxy, if_neg (Ne.symm hxy), decide_eq_false_iff_not, not_lt,
          decide_eq_true_eq] at hab ⊢
        exact lt_of_le_of_ne hab (Ne.symm hxy)

/-! What a place holds. -/

private theorem findEntry_insertEntry_self (place : Place) (e : Entry)
    (entries : List (Place × Entry)) : findEntry place (insertEntry place e entries) = some e := by
  induction entries with
  | nil => simp [insertEntry, findEntry]
  | cons x rest ih =>
    obtain ⟨k, old⟩ := x
    rw [insertEntry]
    split_ifs with hk hbefore
    · simp [findEntry]
    · simp [findEntry]
    · simpa [findEntry, hk] using ih

private theorem findEntry_insertEntry_of_ne {place other : Place} (hne : other ≠ place) (e : Entry)
    (entries : List (Place × Entry)) :
    findEntry other (insertEntry place e entries) = findEntry other entries := by
  induction entries with
  | nil => simp [insertEntry, findEntry, hne.symm]
  | cons x rest ih =>
    obtain ⟨k, old⟩ := x
    rw [insertEntry]
    split_ifs with hk hbefore
    · subst hk
      simp [findEntry, hne.symm]
    · simp [findEntry, hne.symm]
    · simp [findEntry, ih]

theorem lookup_put_self {t : FileTree} {place : Place} (h : isSurrounding place = false)
    (e : Entry) : (t.put place e).lookup place = some e := by
  simp [lookup, h, put, findEntry_insertEntry_self]

theorem lookup_put_of_ne (t : FileTree) {place other : Place} (hne : other ≠ place) (e : Entry) :
    (t.put place e).lookup other = t.lookup other := by
  simp [lookup, put, findEntry_insertEntry_of_ne hne]

theorem not_surrounding {t : FileTree} {place : Place} (h : t.lookup place ≠ some .directory) :
    isSurrounding place = false := by
  rw [Bool.eq_false_iff]
  intro hs
  exact h (by simp [lookup, hs])

private theorem insertEntry_comm {a b : Place} (hne : a ≠ b) (x y : Entry)
    (entries : List (Place × Entry)) :
    insertEntry a x (insertEntry b y entries) = insertEntry b y (insertEntry a x entries) := by
  have hirrefl := placeBefore_irrefl
  have htotal : placeBefore a b = false → placeBefore b a = true := placeBefore_total hne
  have hasymm : placeBefore a b = true → placeBefore b a = false := by
    intro hab
    rw [Bool.eq_false_iff]
    intro hba
    simpa [placeBefore_irrefl] using placeBefore_trans hab hba
  induction entries with
  | nil =>
    cases hab : placeBefore a b with
    | true => simp [insertEntry, hne, hne.symm, hab, hasymm hab]
    | false => simp [insertEntry, hne, hne.symm, hab, htotal hab]
  | cons e rest ih =>
    obtain ⟨k, old⟩ := e
    have htrans : ∀ {c d : Place}, placeBefore c d = true → placeBefore d k = true →
        placeBefore c k = true := placeBefore_trans
    grind [insertEntry]

private theorem put_comm (t : FileTree) {a b : Place} (hne : a ≠ b) (x y : Entry) :
    (t.put a x).put b y = (t.put b y).put a x := by
  simp [put, insertEntry_comm hne]

/-! Trees that differ in their files alone. -/

def KeepsDirectories (t t' : FileTree) : Prop :=
  ∀ place, t.lookup place = some .directory → t'.lookup place = some .directory

theorem KeepsDirectories.trans {t t' t'' : FileTree} (h : KeepsDirectories t t')
    (h' : KeepsDirectories t' t'') : KeepsDirectories t t'' :=
  fun place hplace => h' place (h place hplace)

theorem keepsDirectories_put {t : FileTree} {place : Place}
    (h : t.lookup place ≠ some .directory) (c : Content) :
    KeepsDirectories t (t.put place (.file c)) := by
  intro other hother
  have hne : other ≠ place := fun heq => h (heq ▸ hother)
  rw [lookup_put_of_ne t hne]
  exact hother

theorem put_keepsDirectories {t : FileTree} {place : Place}
    (h : t.lookup place ≠ some .directory) (c : Content) :
    KeepsDirectories (t.put place (.file c)) t := by
  intro other hother
  have hne : other ≠ place := by
    rintro rfl
    simp [lookup_put_self (not_surrounding h)] at hother
  rwa [lookup_put_of_ne t hne] at hother

def SameDirectories (t t' : FileTree) : Prop := KeepsDirectories t t' ∧ KeepsDirectories t' t

theorem SameDirectories.refl (t : FileTree) : SameDirectories t t :=
  ⟨fun _ h => h, fun _ h => h⟩

theorem SameDirectories.trans {t t' t'' : FileTree} (h : SameDirectories t t')
    (h' : SameDirectories t' t'') : SameDirectories t t'' :=
  ⟨h.1.trans h'.1, h'.2.trans h.2⟩

theorem SameDirectories.lookup_ne {t t' : FileTree} (h : SameDirectories t t') {place : Place}
    (hplace : t.lookup place ≠ some .directory) : t'.lookup place ≠ some .directory :=
  fun hdir => hplace (h.2 place hdir)

def putFiles (t : FileTree) : List (Place × Content) → FileTree
  | [] => t
  | f :: files => (t.put f.1 (.file f.2)).putFiles files

theorem putFiles_append (t : FileTree) (files others : List (Place × Content)) :
    t.putFiles (files ++ others) = (t.putFiles files).putFiles others := by
  induction files generalizing t with
  | nil => rfl
  | cons f files ih => exact ih _

theorem sameDirectories_putFiles {t : FileTree} {files : List (Place × Content)}
    (h : ∀ f ∈ files, t.lookup f.1 ≠ some .directory) : SameDirectories t (t.putFiles files) := by
  induction files generalizing t with
  | nil => exact SameDirectories.refl t
  | cons f files ih =>
    rw [List.forall_mem_cons] at h
    have hfirst : SameDirectories t (t.put f.1 (.file f.2)) :=
      ⟨keepsDirectories_put h.1 f.2, put_keepsDirectories h.1 f.2⟩
    exact hfirst.trans (ih fun g hg => hfirst.lookup_ne (h.2 g hg))

private theorem putFiles_put (t : FileTree) {place : Place} (e : Entry)
    {files : List (Place × Content)} (h : ∀ f ∈ files, f.1 ≠ place) :
    (t.put place e).putFiles files = (t.putFiles files).put place e := by
  induction files generalizing t with
  | nil => rfl
  | cons f files ih =>
    rw [List.forall_mem_cons] at h
    rw [putFiles, putFiles, put_comm t (Ne.symm h.1), ih _ h.2]

theorem putFiles_comm (t : FileTree) {files others : List (Place × Content)}
    (h : ∀ f ∈ files, ∀ g ∈ others, f.1 ≠ g.1) :
    (t.putFiles files).putFiles others = (t.putFiles others).putFiles files := by
  induction files generalizing t with
  | nil => rfl
  | cons f files ih =>
    rw [List.forall_mem_cons] at h
    rw [putFiles, ih _ h.2, putFiles, putFiles_put t _ fun g hg => Ne.symm (h.1 g hg)]

/-! Following a path. -/

private theorem follow_append (t : FileTree) (p : Path) (here : Place) (xs ys : List String) :
    t.follow p here (xs ++ ys) = (t.follow p here xs).bind fun place => t.follow p place ys := by
  induction xs generalizing here with
  | nil => rfl
  | cons x xs ih =>
    simp only [List.cons_append, follow]
    cases t.lookup here with
    | none => rfl
    | some e =>
      cases e with
      | file c => rfl
      | directory =>
        simp only [ih]
        split_ifs <;> rfl

/-- A way through directories is open as long as the directories are there, whatever path it is
followed for. -/
private theorem follow_eq_ok {t t' : FileTree} (h : KeepsDirectories t t') {p : Path} (q : Path)
    {here place : Place} {names : List String} (hway : t.follow p here names = .ok place) :
    t'.follow q here names = .ok place := by
  induction names generalizing here with
  | nil => exact hway
  | cons name names ih =>
    simp only [follow] at hway ⊢
    cases hhere : t.lookup here with
    | none => simp [hhere] at hway
    | some e =>
      cases e with
      | file c => simp [hhere] at hway
      | directory =>
        rw [hhere] at hway
        rw [h here hhere]
        simp only at hway ⊢
        split_ifs at hway ⊢ with hdots hlong
        · exact ih hway
        · exact ih hway

private theorem follow_eq_append {t : FileTree} {p : Path} {here place : Place}
    {names : List String} (hdots : ".." ∉ names) (hway : t.follow p here names = .ok place) :
    place = here ++ names := by
  induction names generalizing here with
  | nil =>
    simp only [follow, Except.ok.injEq] at hway
    simp [← hway]
  | cons name names ih =>
    simp only [List.mem_cons, not_or] at hdots
    simp only [follow, if_neg (Ne.symm hdots.1)] at hway
    split at hway
    · simp at hway
    · simp at hway
    · split_ifs at hway
      simpa using ih hdots.2 hway

private def start (p : Path) : Place := if p.absolute then ["/"] else []

private theorem locate_eq_ok_iff {t : FileTree} {p : Path} {place : Place} :
    t.locate p = .ok place ↔
      p.parts.any (·.toList.contains '\x00') = false ∧
        t.follow p (start p) p.parts = .ok place := by
  rw [locate]
  cases p.parts.any (·.toList.contains '\x00') with
  | true => simp
  | false => simp [start]

theorem locate_eq_ok {t t' : FileTree} (h : KeepsDirectories t t') {p : Path} {place : Place}
    (hplace : t.locate p = .ok place) : t'.locate p = .ok place := by
  obtain ⟨hnull, hway⟩ := locate_eq_ok_iff.mp hplace
  exact locate_eq_ok_iff.mpr ⟨hnull, follow_eq_ok h p hway⟩

theorem locate_child {t : FileTree} {p : Path} {place : Place} (hplace : t.locate p = .ok place)
    (hdir : t.lookup place = some .directory) {name : String} (hdots : name ≠ "..") :
    t.locate { p with parts := p.parts ++ [name] } =
      if '\x00' ∈ name.toList then .error .nullCharacter
      else if nameLimit < name.utf8ByteSize then
        .error (.nameTooLong { p with parts := p.parts ++ [name] })
      else .ok (place ++ [name]) := by
  obtain ⟨hnull, hway⟩ := locate_eq_ok_iff.mp hplace
  have hchild := follow_eq_ok (SameDirectories.refl t).1 { p with parts := p.parts ++ [name] } hway
  rw [start] at hchild
  simp only [locate, List.any_append, hnull, Bool.false_or, List.any_cons, List.any_nil,
    Bool.or_false, List.contains_iff_mem]
  rw [follow_append, hchild]
  simp only [Except.bind, follow, hdir, hdots, if_false]

theorem locate_child_eq_ok {t : FileTree} {p : Path} {name : String} {place : Place}
    (hdots : name ≠ "..") (h : t.locate { p with parts := p.parts ++ [name] } = .ok place) :
    ∃ above, t.locate p = .ok above ∧ place = above ++ [name] := by
  obtain ⟨hnull, hway⟩ := locate_eq_ok_iff.mp h
  simp only [List.any_append, Bool.or_eq_false_iff] at hnull
  rw [follow_append] at hway
  cases hfirst : t.follow { p with parts := p.parts ++ [name] } (start p) p.parts with
  | error f =>
    simp only [start] at hway hfirst
    simp [hfirst, Except.bind] at hway
  | ok above =>
    have habove := follow_eq_ok (SameDirectories.refl t).1 p hfirst
    refine ⟨above, locate_eq_ok_iff.mpr ⟨hnull.1, habove⟩, ?_⟩
    simp only [start] at hway hfirst
    rw [hfirst] at hway
    exact follow_eq_append (by simpa using Ne.symm hdots) hway

/-- A place that can only be reached through directories. -/
private def Reached (t : FileTree) (here : Place) : Prop :=
  ∀ init, init <+: here → init ≠ here → t.lookup init = some .directory

private theorem Reached.above {t : FileTree} {here : Place} (hhere : t.Reached here)
    (hdir : t.lookup here = some .directory) :
    t.Reached (above here) ∧ t.lookup (above here) = some .directory := by
  rw [FileTree.above]
  split_ifs with hup htop
  · -- Above the top there is nothing but directories.
    have hall : ∀ init, init <+: here ++ [".."] → t.lookup init = some .directory := by
      intro init hinit
      have hdots : init.all (· == "..") = true := by
        refine List.all_eq_true.mpr fun name hname => ?_
        rcases List.mem_append.mp (hinit.subset hname) with hname | hname
        · exact List.all_eq_true.mp hup name hname
        · simpa using hname
      simp [lookup, isSurrounding, hdots]
    exact ⟨fun init hinit _ => hall init hinit, hall _ List.prefix_rfl⟩
  · exact ⟨hhere, hdir⟩
  · have hproper : here.dropLast ≠ here := by
      intro heq
      have hlength := congrArg List.length heq
      rw [List.length_dropLast] at hlength
      have hnil : here = [] := List.eq_nil_of_length_eq_zero (by omega)
      simp [hnil] at hup
    refine ⟨fun init hinit hne => hhere init (hinit.trans (List.dropLast_prefix here)) ?_,
      hhere _ (List.dropLast_prefix here) hproper⟩
    rintro rfl
    exact hproper (hinit.eq_of_length_le (by simp)).symm

private theorem reached_follow {t : FileTree} {p : Path} {here place : Place}
    {names : List String} (hhere : t.Reached here) (hway : t.follow p here names = .ok place) :
    t.Reached place := by
  induction names generalizing here with
  | nil =>
    cases hway
    exact hhere
  | cons name names ih =>
    rw [follow] at hway
    split at hway
    · cases hway
    · cases hway
    · rename_i hdir
      split_ifs at hway with hdots hlong
      · exact ih (hhere.above hdir).1 hway
      · refine ih (fun init hinit hne => ?_) hway
        rcases List.prefix_concat_iff.mp hinit with heq | hinit
        · exact absurd heq hne
        · by_cases hsame : init = here
          · rw [hsame, hdir]
          · exact hhere init hinit hsame

private theorem reached_start (t : FileTree) (p : Path) : t.Reached (start p) := by
  intro init hinit hne
  rw [start] at hinit hne
  split_ifs at hinit hne
  · rcases List.prefix_cons_iff.mp hinit with rfl | ⟨rest, rfl, hrest⟩
    · rfl
    · exact absurd (by rw [List.prefix_nil.mp hrest]) hne
  · exact absurd (List.prefix_nil.mp hinit) hne

theorem lookup_of_locate_dots {t : FileTree} {p : Path} {place : Place}
    (h : t.locate { p with parts := p.parts ++ [".."] } = .ok place) :
    t.lookup place = some .directory := by
  obtain ⟨-, hway⟩ := locate_eq_ok_iff.mp h
  rw [follow_append] at hway
  cases hfirst : t.follow { p with parts := p.parts ++ [".."] }
      (start { p with parts := p.parts ++ [".."] }) p.parts with
  | error f => simp [hfirst, Except.bind] at hway
  | ok here =>
    have hreached := reached_follow (reached_start t _) hfirst
    simp only [hfirst, Except.bind, follow, if_true] at hway
    split at hway
    · cases hway
    · cases hway
    · rename_i hdir
      cases hway
      exact (hreached.above hdir).2

def placeOf (p : Path) : Place := (if p.absolute then ["/"] else []) ++ p.parts

/-- A path without double dots leads to the place that its names spell out, or nowhere. -/
theorem locate_eq_placeOf {t : FileTree} {p : Path} {place : Place} (hdots : ".." ∉ p.parts)
    (hplace : t.locate p = .ok place) : place = placeOf p := by
  obtain ⟨-, hway⟩ := locate_eq_ok_iff.mp hplace
  exact follow_eq_append hdots hway

theorem isSurrounding_of_locate {t : FileTree} {p : Path} {place : Place} (hparts : p.parts = [])
    (hplace : t.locate p = .ok place) : isSurrounding place = true := by
  rw [locate_eq_placeOf (by simp [hparts]) hplace, placeOf, hparts]
  cases p.absolute <;> rfl

theorem parts_ne_nil_of_locate {t : FileTree} {p : Path} {place : Place}
    (hplace : t.locate p = .ok place) (hfree : t.lookup place ≠ some .directory) :
    p.parts ≠ [] := by
  intro hparts
  have hinner := not_surrounding hfree
  rw [isSurrounding_of_locate hparts hplace] at hinner
  cases hinner

theorem locate_eq_parts {t : FileTree} {p : Path} {place : Place} (hrel : p.absolute = false)
    (hdots : ".." ∉ p.parts) (hplace : t.locate p = .ok place) : place = p.parts := by
  have hspelled := locate_eq_placeOf hdots hplace
  simpa [placeOf, hrel] using hspelled

/-! What is at the end of a path. -/

private theorem entry_eq_ok_iff {t : FileTree} {p : Path} {e : Entry} :
    t.entry p = .ok e ↔ ∃ place, t.locate p = .ok place ∧ t.lookup place = some e := by
  simp only [entry, bind, Except.bind]
  cases t.locate p with
  | error f => simp
  | ok place =>
    cases hplace : t.lookup place with
    | none => simp [hplace]
    | some e' => simp [hplace, pure, Except.pure]

theorem readContent_eq_ok_iff {t : FileTree} {p : Path} {c : Content} :
    t.readContent p = .ok c ↔
      ∃ place, t.locate p = .ok place ∧ t.lookup place = some (.file c) := by
  rw [← entry_eq_ok_iff]
  simp only [readContent, bind, Except.bind]
  cases t.entry p with
  | error f => simp
  | ok e => cases e <;> simp [pure, Except.pure]

theorem isDir_eq_true_iff {t : FileTree} {p : Path} :
    t.isDir p = .ok true ↔
      ∃ place, t.locate p = .ok place ∧ t.lookup place = some .directory := by
  rw [← entry_eq_ok_iff]
  simp only [isDir, status, bind, Except.bind]
  cases t.entry p with
  | error f => cases f <;> simp [pure, Except.pure]
  | ok e => cases e <;> simp [pure, Except.pure]

theorem isDir_parent {t : FileTree} {p : Path} {place : Place} (hnames : p.parts ≠ [])
    (hplace : t.locate p = .ok place) : t.isDir p.parent = .ok true := by
  obtain ⟨hnull, hway⟩ := locate_eq_ok_iff.mp hplace
  obtain ⟨names, name, hparts⟩ := (List.eq_nil_or_concat p.parts).resolve_left hnames
  have hparent : p.parent = { p with parts := names } := by simp [Path.parent, hparts]
  rw [hparts, List.concat_eq_append] at hnull hway
  rw [List.any_append, Bool.or_eq_false_iff] at hnull
  rw [follow_append] at hway
  cases hfirst : t.follow p (start p) names with
  | error f => simp [hfirst, Except.bind] at hway
  | ok above =>
    have habove : t.locate p.parent = .ok above := by
      rw [hparent]
      exact locate_eq_ok_iff.mpr ⟨hnull.1, follow_eq_ok (SameDirectories.refl t).1 _ hfirst⟩
    refine isDir_eq_true_iff.mpr ⟨above, habove, ?_⟩
    simp only [hfirst, Except.bind, follow] at hway
    split at hway
    · cases hway
    · cases hway
    · assumption

theorem exists_of_readContent {t : FileTree} {p : Path} {c : Content}
    (h : t.readContent p = .ok c) : t.exists_ p = .ok true := by
  have hentry : t.entry p = .ok (.file c) := entry_eq_ok_iff.mpr (readContent_eq_ok_iff.mp h)
  simp [exists_, status, hentry, bind, Except.bind, pure, Except.pure]

theorem exists_of_locate {t : FileTree} {p : Path} {place : Place}
    (hplace : t.locate p = .ok place) : t.exists_ p = .ok (t.lookup place).isSome := by
  cases h : t.lookup place with
  | none => simp [exists_, status, entry, hplace, h, bind, Except.bind, pure, Except.pure]
  | some e => simp [exists_, status, entry, hplace, h, bind, Except.bind, pure, Except.pure]

theorem isDir_of_locate {t : FileTree} {p : Path} {place : Place}
    (h : t.locate p = .ok place) :
    t.isDir p = .ok ((t.lookup place).any Entry.isDirectory) := by
  cases hentry : t.lookup place with
  | none => simp [isDir, status, entry, h, hentry, bind, Except.bind, pure, Except.pure]
  | some e =>
    cases e <;>
      simp [isDir, status, entry, h, hentry, bind, Except.bind, pure, Except.pure,
        Entry.isDirectory]

theorem exists_of_nameTooLong {t : FileTree} {p q : Path}
    (h : t.locate p = .error (.nameTooLong q)) : t.exists_ p = .error (.nameTooLong q) := by
  simp [exists_, status, entry, h, bind, Except.bind]

theorem isDir_of_keepsDirectories {t t' : FileTree} (h : KeepsDirectories t t') {p : Path}
    (hdir : t.isDir p = .ok true) : t'.isDir p = .ok true := by
  rw [isDir_eq_true_iff] at hdir ⊢
  obtain ⟨place, hplace, hentry⟩ := hdir
  exact ⟨place, locate_eq_ok h hplace, h place hentry⟩

/-- Where the directory above a path is there, the directories decide what the path leads to. -/
theorem locate_congr {t t' : FileTree} (h : KeepsDirectories t t') {p : Path}
    (hdir : t.isDir p.parent = .ok true) : t'.locate p = t.locate p := by
  obtain ⟨above, habove, hentry⟩ := isDir_eq_true_iff.mp hdir
  obtain ⟨-, hopen⟩ := locate_eq_ok_iff.mp habove
  have hway : t'.follow p (start p) p.parts = t.follow p (start p) p.parts := by
    rcases List.eq_nil_or_concat p.parts with hnil | ⟨names, name, hparts⟩
    · rw [hnil]
      rfl
    · have hnames : t.follow p.parent (start p) names = .ok above := by
        simpa [Path.parent, start, hparts] using hopen
      rw [hparts, List.concat_eq_append, follow_append, follow_append,
        follow_eq_ok (SameDirectories.refl t).1 p hnames, follow_eq_ok h p hnames]
      simp [Except.bind, follow, hentry, h above hentry]
  rw [start] at hway
  rw [locate, locate, hway]

/-! Writing. -/

theorem writeContent_eq_ok {t t' : FileTree} {p : Path} {c : Content}
    (h : t.writeContent p c = .ok t') :
    ∃ place, t.locate p = .ok place ∧ t.lookup place ≠ some .directory ∧
      t' = t.put place (.file c) := by
  simp only [writeContent, bind, Except.bind] at h
  cases hplace : t.locate p with
  | error f => simp [hplace] at h
  | ok place =>
    simp only [hplace] at h
    split at h
    · simp at h
    · rename_i old hold
      exact ⟨place, rfl, by simp [hold], (Except.ok.inj h).symm⟩
    · rename_i hnone
      split at h
      · exact ⟨place, rfl, by simp [hnone], (Except.ok.inj h).symm⟩
      · simp at h

theorem makeDirectory_eq_ok {t t' : FileTree} {p : Path} (h : t.makeDirectory p = .ok t') :
    ∃ place, t.locate p = .ok place ∧ t.lookup place = none ∧ t' = t.put place .directory := by
  simp only [makeDirectory, bind, Except.bind] at h
  cases hplace : t.locate p with
  | error f => simp [hplace] at h
  | ok place =>
    simp only [hplace] at h
    split at h
    · simp at h
    · rename_i hnone
      split at h
      · exact ⟨place, rfl, hnone, (Except.ok.inj h).symm⟩
      · simp at h

theorem writeContent_of_locate {t : FileTree} {p : Path} {place : Place}
    (hplace : t.locate p = .ok place) (hfree : t.lookup place ≠ some .directory)
    (habove : t.lookup place.dropLast = some .directory) (c : Content) :
    t.writeContent p c = .ok (t.put place (.file c)) := by
  simp only [writeContent, hplace, bind, Except.bind]
  cases hold : t.lookup place with
  | none => simp [habove, pure, Except.pure]
  | some e =>
    cases e with
    | directory => exact absurd hold hfree
    | file old => rfl

theorem readContent_of_writeContent {t t' : FileTree} {p : Path} {c : Content}
    (h : t.writeContent p c = .ok t') : t'.readContent p = .ok c := by
  obtain ⟨place, hplace, hdir, rfl⟩ := writeContent_eq_ok h
  rw [readContent_eq_ok_iff]
  exact ⟨place, locate_eq_ok (keepsDirectories_put hdir c) hplace,
    lookup_put_self (not_surrounding hdir) (.file c)⟩

theorem writeContent_isOk_of_readContent {t : FileTree} {p : Path} {old : Content}
    (h : t.readContent p = .ok old) (c : Content) : ∃ t', t.writeContent p c = .ok t' := by
  obtain ⟨place, hplace, hold⟩ := readContent_eq_ok_iff.mp h
  exact ⟨t.put place (.file c), by simp [writeContent, hplace, hold, bind, Except.bind, pure,
    Except.pure]⟩

theorem writeContent_parent {t t' : FileTree} {p : Path} {place : Place} {c : Content}
    (h : t.writeContent p c = .ok t') (hplace : t.locate p = .ok place)
    (hnone : t.lookup place = none) : t.lookup place.dropLast = some .directory := by
  simp only [writeContent, hplace, hnone, bind, Except.bind] at h
  split at h
  · assumption
  · cases h

theorem writeContent_isOk {t t' : FileTree} {p : Path} {c : Content}
    (h : t.writeContent p c = .ok t') (c' : Content) : ∃ t'', t.writeContent p c' = .ok t'' := by
  obtain ⟨place, hplace, hfree, -⟩ := writeContent_eq_ok h
  cases hentry : t.lookup place with
  | none => exact ⟨_, writeContent_of_locate hplace hfree (writeContent_parent h hplace hentry) c'⟩
  | some e =>
    cases e with
    | directory => exact absurd hentry hfree
    | file old =>
      exact writeContent_isOk_of_readContent (readContent_eq_ok_iff.mpr ⟨place, hplace, hentry⟩) c'

end FileTree
end SuiteTidy
