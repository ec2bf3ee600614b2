import SuiteTidy.Proofs.Files.Listing
import Mathlib.Data.List.Induction

/-!
Trees as a file system keeps them: everything in them has a name that a file can have and lies in a
directory that is there. What lies below a directory of such a tree is then reached from there by
its names, through directories only.
-/

set_option autoImplicit false
set_option relaxedAutoImplicit false

namespace SuiteTidy
namespace FileTree

/-- A tree without holes: its entries are in order, none of them is one of the places around the
tree, and each stands under a proper name in a directory. -/
structure Sound (t : FileTree) : Prop where
  ordered : t.Ordered
  inner : ∀ x ∈ t.entries, isSurrounding x.1 = false
  grown : ∀ x ∈ t.entries, ∃ above name, x.1 = above ++ [name] ∧ FileName name ∧
    t.lookup above = some .directory

structure Neat (t : FileTree) : Prop where
  ordered : t.Ordered
  inner : ∀ x ∈ t.entries, isSurrounding x.1 = false

theorem Sound.neat {t : FileTree} (h : t.Sound) : t.Neat := ⟨h.ordered, h.inner⟩

theorem sound_empty : Sound {} where
  ordered := List.Pairwise.nil
  inner := by simp
  grown := by simp

variable {t : FileTree} {place : Place} {names : List String} {e : Entry}

theorem Sound.put (ht : t.Sound) (above : Place) (name : String)
    (habove : t.lookup above = some .directory) (hname : FileName name)
    (hfree : t.lookup (above ++ [name]) ≠ some .directory) (e : Entry) :
    (t.put (above ++ [name]) e).Sound where
  ordered := ordered_put ht.ordered _ _
  inner := by
    intro x hx
    rcases mem_insertEntry hx with rfl | hx
    · exact not_surrounding hfree
    · exact ht.inner x hx
  grown := by
    have hstays : ∀ other, t.lookup other = some .directory →
        (t.put (above ++ [name]) e).lookup other = some .directory := by
      intro other hother
      have hne : other ≠ above ++ [name] := fun heq => hfree (heq ▸ hother)
      rwa [lookup_put_of_ne t hne]
    intro x hx
    rcases mem_insertEntry hx with rfl | hx
    · exact ⟨above, name, rfl, hname, hstays above habove⟩
    · obtain ⟨above', name', heq, hname', habove'⟩ := ht.grown x hx
      exact ⟨above', name', heq, hname', hstays above' habove'⟩

/-! What is listed. -/

theorem mem_entries_iff (h : t.Ordered) {k : Place} :
    (k, e) ∈ t.entries ↔ findEntry k t.entries = some e := by
  obtain ⟨entries⟩ := t
  change entries.Pairwise _ at h
  change _ ∈ entries ↔ findEntry k entries = some e
  induction entries with
  | nil => simp [findEntry]
  | cons first rest ih =>
    obtain ⟨k', e'⟩ := first
    obtain ⟨hfirst, hrest⟩ := List.pairwise_cons.mp h
    rw [findEntry, List.mem_cons, ih hrest]
    by_cases hk : k' = k
    · -- Nothing further on stands at the place of the first entry.
      subst hk
      have hgone : findEntry k' rest ≠ some e := by
        intro hfound
        have hbefore := hfirst (k', e) ((ih hrest).mpr hfound)
        simp [placeBefore_irrefl] at hbefore
      simp [hgone, eq_comm]
    · simp [hk, Ne.symm hk]

theorem Neat.mem_entries_iff (ht : t.Neat) {k : Place} :
    (k, e) ∈ t.entries ↔ isSurrounding k = false ∧ t.lookup k = some e := by
  rw [FileTree.mem_entries_iff ht.ordered]
  constructor
  · intro h
    have hk := ht.inner (k, e) ((FileTree.mem_entries_iff ht.ordered).mpr h)
    exact ⟨hk, by rw [lookup, hk, if_neg Bool.false_ne_true, h]⟩
  · rintro ⟨hk, h⟩
    rwa [lookup, hk, if_neg Bool.false_ne_true] at h

theorem Sound.mem_entries_iff (ht : t.Sound) {k : Place} :
    (k, e) ∈ t.entries ↔ isSurrounding k = false ∧ t.lookup k = some e :=
  ht.neat.mem_entries_iff

theorem Neat.ext {t' : FileTree} (ht : t.Neat) (ht' : t'.Neat)
    (h : ∀ k, t.lookup k = t'.lookup k) : t = t' := by
  have hapart : ∀ {t : FileTree}, t.Ordered → t.entries.Nodup := fun hordered =>
    hordered.imp fun {a b} hbefore hsame => by simp [hsame, placeBefore_irrefl] at hbefore
  have hperm : t.entries.Perm t'.entries := by
    rw [List.perm_ext_iff_of_nodup (hapart ht.ordered) (hapart ht'.ordered)]
    rintro ⟨k, e⟩
    rw [ht.mem_entries_iff, ht'.mem_entries_iff, h]
  have hsame : t.entries = t'.entries := by
    refine List.Perm.eq_of_pairwise (fun a b _ _ hab hba => ?_) ht.ordered ht'.ordered hperm
    simpa [placeBefore_irrefl] using placeBefore_trans hab hba
  cases t
  cases t'
  exact congrArg _ hsame

theorem Sound.grown_child (ht : t.Sound) {above : Place} {name : String}
    (h : (above ++ [name], e) ∈ t.entries) : FileName name ∧ t.lookup above = some .directory := by
  obtain ⟨above', name', heq, hname, habove⟩ := ht.grown _ h
  obtain ⟨rfl, rfl⟩ := List.append_singleton_inj.mp heq
  exact ⟨hname, habove⟩

/-! What lies below a place. -/

theorem isBelow_iff {other : Place} :
    isBelow place other = true ↔
      ∃ name rest, other = place ++ name :: rest ∧ name ≠ ".." ∧ name ≠ "/" := by
  rw [isBelow, Bool.and_eq_true, List.isPrefixOf_iff_prefix]
  constructor
  · rintro ⟨⟨names, rfl⟩, hfirst⟩
    rw [List.drop_left] at hfirst
    cases names with
    | nil => cases hfirst
    | cons name rest => exact ⟨name, rest, rfl, by simpa using hfirst⟩
  · rintro ⟨name, rest, rfl, hname⟩
    refine ⟨List.prefix_append _ _, ?_⟩
    rw [List.drop_left]
    simpa using hname

theorem isBelow_append_iff :
    isBelow place (place ++ names) = true ↔
      ∃ name rest, names = name :: rest ∧ name ≠ ".." ∧ name ≠ "/" := by
  rw [isBelow_iff]
  simp

private theorem FileName.ne_slash {name : String} (h : FileName name) : name ≠ "/" := by
  rintro rfl
  exact h.slash (by decide)

theorem isBelow_of_fileNames (hne : names ≠ []) (h : ∀ name ∈ names, FileName name) :
    isBelow place (place ++ names) = true := by
  obtain ⟨name, rest, rfl⟩ := List.exists_cons_of_ne_nil hne
  have hname := h name List.mem_cons_self
  exact isBelow_append_iff.mpr ⟨name, rest, rfl, hname.dots, hname.ne_slash⟩

private theorem isBelow_dropLast {last : String} (hne : names ≠ [])
    (h : isBelow place (place ++ (names ++ [last])) = true) :
    isBelow place (place ++ names) = true := by
  obtain ⟨first, rest, rfl⟩ := List.exists_cons_of_ne_nil hne
  obtain ⟨name, tail, heq, hname⟩ := isBelow_append_iff.mp h
  obtain ⟨rfl, -⟩ := List.cons.inj heq
  exact isBelow_append_iff.mpr ⟨first, rest, rfl, hname⟩

/-- Only the directory for temporary files lies both around the tree and below a place. -/
theorem eq_of_isBelow_of_isSurrounding (h : isBelow place (place ++ names) = true)
    (hs : isSurrounding (place ++ names) = true) : place = ["/"] ∧ names = ["tmp"] := by
  obtain ⟨name, rest, rfl, hdots, hslash⟩ := isBelow_append_iff.mp h
  simp only [isSurrounding, Bool.or_eq_true, List.all_eq_true, beq_iff_eq] at hs
  rcases hs with (hup | hroot) | htemporary
  · exact absurd (hup name (by simp)) hdots
  · cases place with
    | nil => exact absurd (List.cons.inj hroot).1 hslash
    | cons first place => simp at hroot
  · cases place with
    | nil => exact absurd (List.cons.inj htemporary).1 hslash
    | cons first place =>
      obtain ⟨rfl, htail⟩ := List.cons.inj htemporary
      cases place with
      | nil => exact ⟨rfl, htail⟩
      | cons second place => simp at htail

theorem Sound.way (ht : t.Sound)
    (hbelow : isBelow place (place ++ names) = true) (h : t.lookup (place ++ names) = some e) :
    (∀ name ∈ names, FileName name) ∧
      ∀ init, init <+: names → init ≠ names → t.lookup (place ++ init) = some .directory := by
  induction names using List.reverseRecOn generalizing e with
  | nil =>
    obtain ⟨name, rest, heq, -⟩ := isBelow_append_iff.mp hbelow
    cases heq
  | append_singleton names last ih =>
    obtain ⟨hname, habove⟩ : FileName last ∧ t.lookup (place ++ names) = some .directory := by
      by_cases hs : isSurrounding (place ++ (names ++ [last])) = true
      · obtain ⟨rfl, heq⟩ := eq_of_isBelow_of_isSurrounding hbelow hs
        obtain ⟨rfl, rfl⟩ : names = [] ∧ last = "tmp" := by
          simpa using List.append_singleton_inj.mp (heq.trans (List.nil_append ["tmp"]).symm)
        exact ⟨by decide, rfl⟩
      · have hentry := ht.mem_entries_iff.mpr ⟨Bool.eq_false_iff.mpr hs, h⟩
        rw [← List.append_assoc] at hentry
        exact ht.grown_child hentry
    have hinit : (∀ n ∈ names, FileName n) ∧
        ∀ init, init <+: names → init ≠ names → t.lookup (place ++ init) = some .directory := by
      by_cases hnil : names = []
      · subst hnil
        refine ⟨by simp, fun init hstart hne => ?_⟩
        exact absurd (List.prefix_nil.mp hstart) hne
      · exact ih (isBelow_dropLast hnil hbelow) habove
    refine ⟨List.forall_mem_append.mpr ⟨hinit.1, by simpa using hname⟩, fun init hstart hne => ?_⟩
    rcases List.prefix_concat_iff.mp hstart with heq | hshort
    · exact absurd heq hne
    · by_cases hwhole : init = names
      · rwa [hwhole]
      · exact hinit.2 init hshort hwhole

theorem Sound.exists_above (ht : t.Sound) (hbelow : isBelow place (place ++ names) = true)
    (h : t.lookup (place ++ names) = some e) :
    ∃ above name, names = above ++ [name] ∧ (∀ n ∈ above, FileName n) ∧
      t.lookup (place ++ above) = some .directory := by
  obtain ⟨hnames, hway⟩ := ht.way hbelow h
  rcases List.eq_nil_or_concat names with rfl | ⟨above, name, rfl⟩
  · obtain ⟨_, _, heq, -⟩ := isBelow_append_iff.mp hbelow
    cases heq
  · rw [List.concat_eq_append] at hnames hway ⊢
    exact ⟨above, name, rfl, fun n hn => hnames n (List.mem_append_left _ hn),
      hway above (List.prefix_append _ _) (by simp)⟩

/-! Paths to what lies below. -/

theorem locate_append {root : Path} (hplace : t.locate root = .ok place)
    (hnames : ∀ name ∈ names, FileName name)
    (hway : ∀ init, init <+: names → init ≠ names → t.lookup (place ++ init) = some .directory) :
    t.locate { root with parts := root.parts ++ names } = .ok (place ++ names) := by
  induction names using List.reverseRecOn with
  | nil => simpa using hplace
  | append_singleton names last ih =>
    have hlast := hnames last (by simp)
    have hinit := ih (fun name hname => hnames name (List.mem_append_left _ hname)) <| by
      intro init hstart _
      refine hway init (hstart.trans (List.prefix_append _ _)) fun heq => ?_
      have hlength := hstart.length_le
      simp [heq] at hlength
    have hdir := hway names (List.prefix_append _ _) (by simp)
    have hchild := locate_child hinit hdir hlast.dots
    rw [if_neg hlast.null, if_neg (Nat.not_lt.mpr hlast.short)] at hchild
    simpa using hchild

theorem Sound.locate_below (ht : t.Sound) {root : Path} (hplace : t.locate root = .ok place)
    (hbelow : isBelow place (place ++ names) = true) (h : t.lookup (place ++ names) = some e) :
    t.locate { root with parts := root.parts ++ names } = .ok (place ++ names) :=
  FileTree.locate_append hplace (ht.way hbelow h).1 (ht.way hbelow h).2

theorem Sound.locate_append (ht : t.Sound) {root : Path} (hplace : t.locate root = .ok place)
    (hnames : ∀ name ∈ names, FileName name) (h : t.lookup (place ++ names) = some e) :
    t.locate { root with parts := root.parts ++ names } = .ok (place ++ names) := by
  by_cases hne : names = []
  · simpa [hne] using hplace
  · exact ht.locate_below hplace (isBelow_of_fileNames hne hnames) h

theorem locate_append_eq_ok {root : Path} {found : Place} (hdots : ".." ∉ names)
    (h : t.locate { root with parts := root.parts ++ names } = .ok found) :
    ∃ place, t.locate root = .ok place ∧ found = place ++ names := by
  induction names using List.reverseRecOn generalizing found with
  | nil => exact ⟨found, by simpa using h, by simp⟩
  | append_singleton names last ih =>
    simp only [List.mem_append, List.mem_singleton, not_or] at hdots
    rw [← List.append_assoc] at h
    obtain ⟨above, habove, rfl⟩ :=
      locate_child_eq_ok (p := { root with parts := root.parts ++ names }) (Ne.symm hdots.2) h
    obtain ⟨place, hplace, rfl⟩ := ih hdots.1 habove
    exact ⟨place, hplace, by simp⟩

theorem isFile_of_locate {p : Path} (hplace : t.locate p = .ok place) :
    t.isFile p = .ok ((t.lookup place).any fun found => !found.isDirectory) := by
  cases h : t.lookup place with
  | none => simp [isFile, status, entry, hplace, h, bind, Except.bind, pure, Except.pure]
  | some found =>
    cases found <;>
      simp [isFile, status, entry, hplace, h, bind, Except.bind, pure, Except.pure,
        Entry.isDirectory]

theorem isFile_eq_true_iff {p : Path} :
    t.isFile p = .ok true ↔
      ∃ place c, t.locate p = .ok place ∧ t.lookup place = some (.file c) := by
  constructor
  · intro h
    cases hplace : t.locate p with
    | error f =>
      cases f <;> simp [isFile, status, entry, hplace, bind, Except.bind, pure, Except.pure] at h
    | ok place =>
      rw [isFile_of_locate hplace] at h
      cases hentry : t.lookup place with
      | none => simp [hentry] at h
      | some found =>
        cases found with
        | directory => simp [hentry, Entry.isDirectory] at h
        | file c => exact ⟨place, c, rfl, hentry⟩
  · rintro ⟨place, c, hplace, hentry⟩
    rw [isFile_of_locate hplace, hentry]
    rfl

/-! Changes of a tree. -/

/-- A place that is spelled out from one of the places around the tree by proper names. -/
def Spelled (place : Place) : Prop :=
  ∃ base names, place = base ++ names ∧ (base.all (· == "..") = true ∨ base = ["/"]) ∧
    ∀ name ∈ names, FileName name

theorem Spelled.child {name : String} (h : Spelled place) (hname : FileName name) :
    Spelled (place ++ [name]) := by
  obtain ⟨base, names, rfl, hbase, hnames⟩ := h
  exact ⟨base, names ++ [name], List.append_assoc _ _ _, hbase,
    List.forall_mem_append.mpr ⟨hnames, by simpa using hname⟩⟩

theorem Spelled.above (h : Spelled place) : Spelled (above place) := by
  obtain ⟨base, names, rfl, hbase, hnames⟩ := h
  rcases List.eq_nil_or_concat names with rfl | ⟨init, last, rfl⟩
  · rw [List.append_nil, FileTree.above]
    rcases hbase with hup | rfl
    · rw [if_pos hup]
      exact ⟨base ++ [".."], [], by simp, .inl (by simpa using hup), by simp⟩
    · exact ⟨["/"], [], rfl, .inr rfl, by simp⟩
  · rw [List.concat_eq_append] at hnames ⊢
    have hlast := hnames last (by simp)
    have hdown : (base ++ (init ++ [last])).all (· == "..") = false := by simp [hlast.dots]
    have hroot : base ++ (init ++ [last]) ≠ ["/"] := by
      intro heq
      exact hlast.ne_slash (by simpa using congrArg List.getLast? heq)
    rw [FileTree.above, if_neg (by simp [hdown]), if_neg hroot, ← List.append_assoc,
      List.dropLast_concat]
    exact ⟨base, init, rfl, hbase, fun n hn => hnames n (List.mem_append_left _ hn)⟩

private theorem Spelled.exists_child (h : Spelled place) (hs : isSurrounding place = false) :
    ∃ above name, place = above ++ [name] ∧ FileName name := by
  obtain ⟨base, names, rfl, hbase, hnames⟩ := h
  rcases List.eq_nil_or_concat names with rfl | ⟨init, last, rfl⟩
  · rcases hbase with hup | rfl
    · simp [isSurrounding, hup] at hs
    · cases hs
  · refine ⟨base ++ init, last, ?_, hnames last (by simp)⟩
    rw [List.concat_eq_append, List.append_assoc]

private theorem spelled_follow {p : Path} {here : Place} {parts : List String}
    (hparts : ∀ part ∈ parts, '/' ∉ part.toList ∧ part ≠ "" ∧ part ≠ ".")
    (hnull : ∀ part ∈ parts, '\x00' ∉ part.toList) (hhere : Spelled here)
    (h : t.follow p here parts = .ok place) : Spelled place := by
  induction parts generalizing here with
  | nil =>
    obtain rfl := Except.ok.inj h
    exact hhere
  | cons part parts ih =>
    rw [List.forall_mem_cons] at hparts hnull
    rw [follow] at h
    split at h
    · cases h
    · cases h
    · split_ifs at h with hdots hlong
      · exact ih hparts.2 hnull.2 hhere.above h
      · have hname : FileName part :=
          { slash := hparts.1.1, null := hnull.1, nonempty := hparts.1.2.1, dot := hparts.1.2.2,
            dots := hdots, short := Nat.not_lt.mp hlong }
        exact ih hparts.2 hnull.2 (hhere.child hname) h

end FileTree

def Path.Normal (p : Path) : Prop :=
  ∀ part ∈ p.parts, '/' ∉ part.toList ∧ part ≠ "" ∧ part ≠ "."

instance (p : Path) : Decidable p.Normal := inferInstanceAs (Decidable (∀ _ ∈ _, _))

namespace FileTree

variable {t t' : FileTree} {place : Place} {p : Path}

private theorem spelled_locate (hp : p.Normal) (h : t.locate p = .ok place) : Spelled place := by
  rw [locate] at h
  by_cases hnull : p.parts.any (·.toList.contains '\x00') = true
  · rw [if_pos hnull] at h
    cases h
  · rw [if_neg hnull] at h
    have hchars : ∀ part ∈ p.parts, '\x00' ∉ part.toList := by
      intro part hpart hmem
      exact hnull (List.any_eq_true.mpr ⟨part, hpart, List.contains_iff_mem.mpr hmem⟩)
    refine spelled_follow hp hchars ?_ h
    cases p.absolute with
    | false => exact ⟨[], [], rfl, .inl rfl, by simp⟩
    | true => exact ⟨["/"], [], rfl, .inr rfl, by simp⟩

private theorem Sound.put_at (ht : t.Sound) (hp : p.Normal) (hplace : t.locate p = .ok place)
    (hfree : t.lookup place ≠ some .directory)
    (habove : t.lookup place = none → t.lookup place.dropLast = some .directory) (e : Entry) :
    (t.put place e).Sound := by
  have hs := not_surrounding hfree
  obtain ⟨above, name, rfl, hname⟩ := (spelled_locate hp hplace).exists_child hs
  rw [List.dropLast_concat] at habove
  refine ht.put above name ?_ hname hfree e
  cases hold : t.lookup (above ++ [name]) with
  | none => exact habove hold
  | some old => exact (ht.grown_child (ht.mem_entries_iff.mpr ⟨hs, hold⟩)).2

theorem Sound.erase (ht : t.Sound) (hempty : t.names place = []) : (t.erase place).Sound where
  ordered := ordered_erase ht.ordered place
  inner := fun x hx => ht.inner x (List.mem_of_mem_filter hx)
  grown := by
    intro x hx
    have hmem := List.mem_of_mem_filter hx
    obtain ⟨above, name, heq, hname, habove⟩ := ht.grown x hmem
    have hne : above ≠ place := by
      rintro rfl
      have hlisted : name ∈ t.names above := mem_names.mpr ⟨x.2, heq ▸ hmem⟩
      rw [hempty] at hlisted
      cases hlisted
    exact ⟨above, name, heq, hname, by rwa [lookup_erase_of_ne t hne]⟩

private theorem Sound.names_of_file (ht : t.Sound) {c : Content}
    (h : t.lookup place = some (.file c)) : t.names place = [] := by
  rw [List.eq_nil_iff_forall_not_mem]
  intro name hname
  obtain ⟨e, hentry⟩ := mem_names.mp hname
  have hdir := (ht.grown_child hentry).2
  rw [h] at hdir
  cases hdir

private theorem makeDirectory_parent (h : t.makeDirectory p = .ok t')
    (hplace : t.locate p = .ok place) (hnone : t.lookup place = none) :
    t.lookup place.dropLast = some .directory := by
  simp only [makeDirectory, hplace, hnone, bind, Except.bind] at h
  split at h
  · assumption
  · cases h

private theorem removeFile_eq_ok (h : t.removeFile p = .ok t') :
    ∃ place c, t.lookup place = some (.file c) ∧ t' = t.erase place := by
  simp only [removeFile, bind, Except.bind] at h
  cases hplace : t.locate p with
  | error f => simp [hplace] at h
  | ok place =>
    simp only [hplace] at h
    split at h
    · rename_i c hentry
      exact ⟨place, c, hentry, (Except.ok.inj h).symm⟩
    · cases h
    · cases h

private theorem removeDirectory_eq_ok (h : t.removeDirectory p = .ok t') :
    ∃ place, t.names place = [] ∧ t' = t.erase place := by
  simp only [removeDirectory, bind, Except.bind] at h
  cases hplace : t.locate p with
  | error f => simp [hplace] at h
  | ok place =>
    simp only [hplace] at h
    split at h
    · split_ifs at h with htop hempty
      exact ⟨place, List.isEmpty_iff.mp hempty, (Except.ok.inj h).symm⟩
    · cases h
    · cases h

inductive Edit where
  | write (p : Path) (c : Content)
  | makeDirectory (p : Path)
  | removeFile (p : Path)
  | removeDirectory (p : Path)

def Edit.path : Edit → Path
  | write p _ => p
  | makeDirectory p => p
  | removeFile p => p
  | removeDirectory p => p

def edited (t : FileTree) : Edit → Except FileFault FileTree
  | .write p c => t.writeContent p c
  | .makeDirectory p => t.makeDirectory p
  | .removeFile p => t.removeFile p
  | .removeDirectory p => t.removeDirectory p

theorem Sound.edited (ht : t.Sound) {edit : Edit} (hp : edit.path.Normal)
    (h : t.edited edit = .ok t') : t'.Sound := by
  cases edit with
  | write p c =>
    obtain ⟨place, hplace, hfree, rfl⟩ := writeContent_eq_ok h
    exact ht.put_at hp hplace hfree (writeContent_parent h hplace) _
  | makeDirectory p =>
    obtain ⟨place, hplace, hnone, rfl⟩ := makeDirectory_eq_ok h
    exact ht.put_at hp hplace (by simp [hnone]) (makeDirectory_parent h hplace) _
  | removeFile p =>
    obtain ⟨place, c, hentry, rfl⟩ := removeFile_eq_ok h
    exact ht.erase (ht.names_of_file hentry)
  | removeDirectory p =>
    obtain ⟨place, hempty, rfl⟩ := removeDirectory_eq_ok h
    exact ht.erase hempty

theorem Sound.editedAll (ht : t.Sound) {edits : List Edit} (hp : ∀ edit ∈ edits, edit.path.Normal)
    (h : edits.foldlM FileTree.edited t = .ok t') : t'.Sound := by
  induction edits generalizing t with
  | nil =>
    obtain rfl := Except.ok.inj h
    exact ht
  | cons edit edits ih =>
    rw [List.forall_mem_cons] at hp
    rw [List.foldlM_cons] at h
    cases hedit : t.edited edit with
    | error f =>
      rw [hedit] at h
      cases h
    | ok t₁ =>
      rw [hedit] at h
      exact ih (ht.edited hp.1 hedit) hp.2 h

end FileTree
end SuiteTidy
