import SuiteTidy.Proofs.Scan.Patterns

/-!
What a search finds from where it starts. A search looks for directories to be passed over among all
the components of a path, those that lead to its start with the others. Main statement: the files
that should be found are found, each once, unless the start itself lies in such a directory; then
nothing is found.
-/

set_option autoImplicit false
set_option relaxedAutoImplicit false

namespace SuiteTidy

namespace Path

variable {root r r' : Path}

private theorem join_of_relative (h : r.absolute = false) :
    root.join r = { root with parts := root.parts ++ r.parts } := by
  rw [join, h]
  rfl

private theorem join_inj (h : r.absolute = false) (h' : r'.absolute = false) :
    root.join r = root.join r' ↔ r = r' := by
  refine ⟨fun heq => ?_, fun heq => heq ▸ rfl⟩
  rw [join_of_relative h, join_of_relative h'] at heq
  have hparts : r.parts = r'.parts := List.append_cancel_left (Path.mk.inj heq).2
  obtain ⟨absolute, parts⟩ := r
  obtain ⟨absolute', parts'⟩ := r'
  simp_all

private theorem name_join (h : r.absolute = false) (hne : r.parts ≠ []) :
    (root.join r).name = r.name := by
  rw [join_of_relative h, name, name, List.getLast?_append_of_ne_nil _ hne]

private theorem under_join_iff (h : r.absolute = false) :
    root.Under (root.join r) ↔ r.parts ≠ [] ∧ ∀ name ∈ r.parts, FileTree.FileName name := by
  rw [join_of_relative h]
  constructor
  · rintro ⟨names, hne, hnames, heq⟩
    rw [List.append_cancel_left (Path.mk.inj heq).2]
    exact ⟨hne, hnames⟩
  · rintro ⟨hne, hnames⟩
    exact ⟨r.parts, hne, hnames, rfl⟩

end Path

namespace Scan

open FileTree

variable {t : FileTree} {root r p : Path} {place : Place}

def Clear (p : Path) : Prop := ∀ name ∈ p.parts, name ∉ excluded

instance : DecidablePred Clear := fun p =>
  inferInstanceAs (Decidable (∀ name ∈ p.parts, name ∉ excluded))

private theorem passesThrough_excluded_iff : passesThrough excluded p = false ↔ Clear p := by
  have htop : "/" ∉ excluded := by decide
  have hmem : ∀ name ∈ excluded, name ∈ p.components ↔ name ∈ p.parts := by
    intro name hname
    have hne : name ≠ "/" := fun heq => htop (heq ▸ hname)
    unfold Path.components
    split_ifs <;> simp [hne]
  rw [passesThrough, List.any_eq_false]
  constructor
  · intro h name hname hexcluded
    exact h name hexcluded (List.contains_iff_mem.mpr ((hmem name hexcluded).mpr hname))
  · intro h name hexcluded hname
    exact h name ((hmem name hexcluded).mp (List.contains_iff_mem.mp hname)) hexcluded

private theorem clear_join_iff (h : r.absolute = false) :
    Clear (root.join r) ↔ Clear root ∧ Clear r := by
  rw [Path.join_of_relative h, Clear, List.forall_mem_append]
  rfl

private theorem isWanted_iff :
    isWanted p = true ↔ Clear p ∧ ∃ pattern ∈ patterns, Glob.fits pattern p.name = true := by
  rw [isWanted, Bool.and_eq_true, Bool.not_eq_true', passesThrough_excluded_iff, List.any_eq_true]

private theorem isWanted_join (h : r.absolute = false) (hne : r.parts ≠ []) :
    isWanted (root.join r) = (decide (Clear root) && isWanted r) := by
  rw [Bool.eq_iff_iff, Bool.and_eq_true, decide_eq_true_iff, isWanted_iff, isWanted_iff,
    clear_join_iff h, Path.name_join h hne, and_assoc]

/-- A path from a directory down to a test file, through no directory to be passed over. -/
structure Sought (t : FileTree) (root r : Path) : Prop where
  relative : r.absolute = false
  proper : r.parts ≠ [] ∧ ∀ name ∈ r.parts, FileName name
  isFile : t.isFile (root.join r) = .ok true
  clear : Clear r
  named : ∃ pattern ∈ patterns, Glob.fits pattern r.name = true

/-- A list of what is sought below a directory, each file once. -/
def FindsSought (t : FileTree) (root : Path) (found : List Path) : Prop :=
  found.Nodup ∧ ∀ p, p ∈ found ↔ ∃ r, Sought t root r ∧ p = root.join r

private theorem filesBelow_eq_map_join (ht : t.Sound) (hplace : t.locate root = .ok place)
    (hdir : t.lookup place = some .directory) :
    ∃ rs : List Path, filesBelow t root = .ok (rs.map root.join) ∧ rs.Nodup ∧
      ∀ r, r ∈ rs ↔ r.absolute = false ∧ (r.parts ≠ [] ∧ ∀ name ∈ r.parts, FileName name) ∧
        t.isFile (root.join r) = .ok true := by
  let rs : List Path := ((t.below place).filter isFileEntry).map fun x => { parts := x.1 }
  have hrelative : ∀ r ∈ rs, r.absolute = false := by
    intro r hr
    obtain ⟨x, -, rfl⟩ := List.mem_map.mp hr
    rfl
  have hmap : rs.map root.join = ((t.below place).filter isFileEntry).map fun x =>
      { root with parts := root.parts ++ x.1 } := List.map_map
  obtain ⟨files, hfiles, hnodup, hmem⟩ := filesBelow_spec ht hplace hdir
  have heq := filesBelow_of_isDir hplace hdir
  rw [← hmap] at heq
  obtain rfl := Except.ok.inj (hfiles.symm.trans heq)
  refine ⟨rs, heq, hnodup.of_map, fun r => ?_⟩
  constructor
  · intro hr
    obtain ⟨hunder, hfile⟩ := (hmem _).mp (List.mem_map_of_mem hr)
    exact ⟨hrelative r hr, (Path.under_join_iff (hrelative r hr)).mp hunder, hfile⟩
  · rintro ⟨hr, hproper, hfile⟩
    obtain ⟨r', hr', hjoin⟩ :=
      List.mem_map.mp ((hmem _).mpr ⟨(Path.under_join_iff hr).mpr hproper, hfile⟩)
    rwa [← (Path.join_inj (hrelative r' hr') hr).mp hjoin]

private theorem testFiles_eq_map_join (ht : t.Sound) (hroot : t.isDir root = .ok true) :
    ∃ rs : List Path, testFiles t root = .ok (if Clear root then rs.map root.join else []) ∧
      rs.Nodup ∧ ∀ r, r ∈ rs ↔ Sought t root r := by
  obtain ⟨place, hplace, hdir⟩ := isDir_eq_true_iff.mp hroot
  obtain ⟨rs, hfiles, hnodup, hmem⟩ := filesBelow_eq_map_join ht hplace hdir
  refine ⟨rs.filter isWanted, ?_, hnodup.filter _, fun r => ?_⟩
  · have hwanted : ∀ r ∈ rs, isWanted (root.join r) = (decide (Clear root) && isWanted r) := by
      intro r hr
      obtain ⟨hrelative, hproper, -⟩ := (hmem r).mp hr
      exact isWanted_join hrelative hproper.1
    have hkept : (rs.map root.join).filter isWanted =
        (rs.filter fun r => decide (Clear root) && isWanted r).map root.join := by
      rw [List.filter_map]
      exact congrArg _ (List.filter_congr hwanted)
    rw [testFiles, hfiles]
    change Except.ok ((rs.map root.join).filter isWanted) = _
    rw [hkept]
    by_cases hclear : Clear root
    · simp [hclear]
    · simp [hclear]
  · rw [List.mem_filter, hmem, isWanted_iff]
    constructor
    · rintro ⟨⟨hrelative, hproper, hfile⟩, hclear, hnamed⟩
      exact ⟨hrelative, hproper, hfile, hclear, hnamed⟩
    · rintro ⟨hrelative, hproper, hfile, hclear, hnamed⟩
      exact ⟨⟨hrelative, hproper, hfile⟩, hclear, hnamed⟩

private theorem findsSought_map_join {rs : List Path} (hnodup : rs.Nodup)
    (hmem : ∀ r, r ∈ rs ↔ Sought t root r) : FindsSought t root (rs.map root.join) := by
  constructor
  · refine List.Nodup.map_on (fun r hr r' hr' heq => ?_) hnodup
    exact (Path.join_inj ((hmem r).mp hr).relative ((hmem r').mp hr').relative).mp heq
  · intro p
    rw [List.mem_map]
    refine exists_congr fun r => ?_
    rw [hmem, eq_comm]

private theorem findsSought_nil_iff : FindsSought t root [] ↔ ∀ r, ¬Sought t root r := by
  constructor
  · intro h r hr
    exact List.not_mem_nil ((h.2 (root.join r)).mpr ⟨r, hr, rfl⟩)
  · intro h
    refine ⟨List.nodup_nil, fun p => iff_of_false List.not_mem_nil ?_⟩
    rintro ⟨r, hr, -⟩
    exact h r hr

/-- A search from a directory ends. It finds what is sought below it, each file once, if and only if
no component of the path to the directory is a name to be passed over or nothing is sought there;
otherwise it finds nothing. -/
theorem testFiles_findsSought_iff (ht : t.Sound) (hroot : t.isDir root = .ok true) :
    ∃ found, testFiles t root = .ok found ∧
      (FindsSought t root found ↔ Clear root ∨ ∀ r, ¬Sought t root r) ∧
      (¬Clear root → found = []) := by
  obtain ⟨rs, hfound, hnodup, hmem⟩ := testFiles_eq_map_join ht hroot
  refine ⟨_, hfound, ?_, fun hclear => if_neg hclear⟩
  by_cases hclear : Clear root
  · rw [if_pos hclear]
    exact iff_of_true (findsSought_map_join hnodup hmem) (.inl hclear)
  · rw [if_neg hclear, findsSought_nil_iff, or_iff_right hclear]

def building : List Edit :=
  [.makeDirectory { parts := ["build"] }, .makeDirectory { parts := ["build", "app"] },
    .write { parts := ["build", "app", "a.spec.ts"] } (.bytes "".toUTF8)]

def built : FileTree :=
  { entries := [(["build"], .directory), (["build", "app"], .directory),
      (["build", "app", "a.spec.ts"], .file (.bytes "".toUTF8))] }

private theorem sound_built : built.Sound := by
  have hnormal : ∀ edit ∈ building, edit.path.Normal := by decide
  have hgrown : building.foldlM edited {} = .ok built := rfl
  exact sound_empty.editedAll hnormal hgrown

theorem testFiles_findsSought_iff_built :
    built.Sound ∧ built.isDir { parts := ["build", "app"] } = .ok true ∧
    Sought built { parts := ["build", "app"] } { parts := ["a.spec.ts"] } ∧
    testFiles built { parts := ["build", "app"] } = .ok [] ∧
    ¬FindsSought built { parts := ["build", "app"] } [] := by
  have hroot : built.isDir { parts := ["build", "app"] } = .ok true := rfl
  have hsought : Sought built { parts := ["build", "app"] } { parts := ["a.spec.ts"] } :=
    ⟨rfl, by decide, rfl, by decide, "*.spec.ts", by decide, by decide⟩
  obtain ⟨found, hscan, hexact, hnone⟩ := testFiles_findsSought_iff sound_built hroot
  obtain rfl := hnone (by decide)
  refine ⟨sound_built, hroot, hsought, hscan, fun hfinds => ?_⟩
  rcases hexact.mp hfinds with hclear | hnothing
  · exact absurd hclear (by decide)
  · exact hnothing _ hsought

end Scan
end SuiteTidy
