import SuiteTidy.Proofs.Lists
import SuiteTidy.Proofs.Order.Stable
import SuiteTidy.Proofs.Scan
import SuiteTidy.Proofs.Scan.Names

/-!
A search by patterns and a search for test files. Both find the files below a directory whose names
have the endings of test sources, the first one pattern after another and the second one directory
after another. Main statement: what the first finds is what the second finds in another order, each
file once, and every file of that kind is found.
-/

set_option autoImplicit false
set_option relaxedAutoImplicit false

namespace SuiteTidy

/-- A path that leads down from another by proper names. -/
def Path.Under (root p : Path) : Prop :=
  ∃ names, names ≠ [] ∧ (∀ name ∈ names, FileTree.FileName name) ∧
    p = { root with parts := root.parts ++ names }

namespace Scan

open FileTree Suite

section Below

variable {t : FileTree} {root p : Path} {place : Place}

private theorem isDir_of_under (ht : t.Sound) (hunder : root.Under p)
    (hfile : t.isFile p = .ok true) : t.isDir root = .ok true := by
  obtain ⟨names, hne, hnames, rfl⟩ := hunder
  obtain ⟨found, c, hfound, hentry⟩ := isFile_eq_true_iff.mp hfile
  have hdots : ".." ∉ names := fun hmem => (hnames _ hmem).dots rfl
  obtain ⟨place, hplace, rfl⟩ := locate_append_eq_ok hdots hfound
  have hway := (ht.way (isBelow_of_fileNames hne hnames) hentry).2
  have hdir := hway [] List.nil_prefix (Ne.symm hne)
  rw [List.append_nil] at hdir
  exact isDir_eq_true_iff.mpr ⟨place, hplace, hdir⟩

private theorem mem_below_iff {x : Place × Entry} :
    x ∈ t.below place ↔ isBelow place (place ++ x.1) = true ∧ (place ++ x.1, x.2) ∈ t.entries := by
  change x ∈ (inside place t.entries).mergeSort foundBefore ↔ _
  rw [List.mem_mergeSort, inside, List.mem_filterMap]
  constructor
  · rintro ⟨⟨k, e⟩, hmem, hx⟩
    split_ifs at hx with hbelow
    obtain rfl := Option.some.inj hx
    obtain ⟨name, rest, rfl, -⟩ := isBelow_iff.mp hbelow
    simpa using ⟨hbelow, hmem⟩
  · rintro ⟨hbelow, hmem⟩
    exact ⟨_, hmem, by simp [hbelow]⟩

private theorem nodup_below (h : t.Ordered) : ((t.below place).map Prod.fst).Nodup := by
  have hplaces : ((inside place t.entries).map Prod.fst).Nodup := by
    rw [inside, List.Nodup, List.pairwise_map, List.pairwise_filterMap]
    refine h.imp fun {x y} hbefore a ha b hb heq => ?_
    split_ifs at ha hb with hx hy
    obtain ⟨_, _, hk, -⟩ := isBelow_iff.mp hx
    obtain ⟨_, _, hk', -⟩ := isBelow_iff.mp hy
    obtain rfl := Option.some.inj ha
    obtain rfl := Option.some.inj hb
    simp only [hk, hk', List.drop_left] at heq
    rw [hk, hk', heq, placeBefore_irrefl] at hbefore
    cases hbefore
  have hperm := (List.mergeSort_perm (inside place t.entries) foundBefore).map Prod.fst
  exact hperm.nodup_iff.mpr hplaces

/-! Steps of a search by patterns. -/

private theorem stepsOf_pattern : ∀ pattern ∈ patterns,
    Glob.stepsOf pattern = .ok [.wildcard pattern] := by
  simp only [patterns, List.forall_mem_cons]
  exact ⟨rfl, rfl, rfl, rfl, by simp⟩

private theorem namesIn_of_locate (hplace : t.locate p = .ok place)
    (hdir : t.lookup place = some .directory) : Glob.namesIn t p = t.names place := by
  have hlist : t.list p = .ok (t.names place) := by
    simp only [list, hplace, hdir, bind, Except.bind, pure, Except.pure]
  rw [Glob.namesIn, hlist]

def fitting (t : FileTree) (pattern : String) (d : Path) : List Path :=
  ((Glob.namesIn t d).filter (Glob.fits pattern)).map (Glob.child d)

private theorem mem_fitting_iff {d : Path} (hd : t.locate d = .ok place)
    (hdir : t.lookup place = some .directory) {pattern : String} :
    p ∈ fitting t pattern d ↔ ∃ name e, (place ++ [name], e) ∈ t.entries ∧
      Glob.fits pattern name = true ∧ p = { d with parts := d.parts ++ [name] } := by
  rw [fitting, namesIn_of_locate hd hdir, List.mem_map]
  constructor
  · rintro ⟨name, hname, rfl⟩
    obtain ⟨hlisted, hfits⟩ := List.mem_filter.mp hname
    obtain ⟨e, hentry⟩ := mem_names.mp hlisted
    exact ⟨name, e, hentry, hfits, rfl⟩
  · rintro ⟨name, e, hentry, hfits, rfl⟩
    exact ⟨name, List.mem_filter.mpr ⟨mem_names.mpr ⟨e, hentry⟩, hfits⟩, rfl⟩

private theorem select_wildcard (pattern : String) (d : Path) :
    Glob.select t [.wildcard pattern] d = .ok (fitting t pattern d) := by
  have hends : ∀ q ∈ fitting t pattern d, Glob.select t [] q = .ok [q] :=
    fun q _ => by rw [Glob.select]
  have hall := Lists.mapM_eq_ok_map hends
  rw [fitting] at hall
  rw [Glob.select]
  simp only [List.isEmpty_nil, if_true, pure, Except.pure, bind, Except.bind, hall]
  rw [← List.flatMap_def, List.flatMap_singleton']
  rfl

private theorem findBelow_wildcard {ds : List Path} (hroot : t.isDir root = .ok true)
    (hds : Glob.directories t root = .ok ds) (pattern : String) :
    Glob.findBelow t root [.wildcard pattern] =
      .ok (ds.flatMap (fitting t pattern)).eraseDups := by
  have hall : ds.mapM (Glob.select t [.wildcard pattern]) = .ok (ds.map (fitting t pattern)) :=
    Lists.mapM_eq_ok_map fun d _ => select_wildcard pattern d
  rw [Glob.findBelow, hroot]
  change Glob.select t [.anyDepth, .wildcard pattern] root = _
  rw [Glob.select, hds]
  change (ds.mapM (Glob.select t [.wildcard pattern]) >>= _) = _
  rw [hall]
  rfl

private theorem name_append (root : Path) (names : List String) (name : String) :
    Path.name { root with parts := root.parts ++ (names ++ [name]) } = name := by
  simp [Path.name]

def matching (t : FileTree) (skipped : List String) (ds : List Path) (pattern : String) :
    List Path :=
  ((ds.flatMap (fitting t pattern)).eraseDups.filter (!passesThrough skipped ·)).filter fun p =>
    (t.isFile p).toOption.getD false

/-! What should be found. -/

/-- A file under a path that has the name of a test source and is in no directory to be passed
over. -/
structure Wanted (t : FileTree) (root p : Path) : Prop where
  under : root.Under p
  isFile : t.isFile p = .ok true
  kept : passesThrough excluded p = false
  named : isSourceName p.text = true

private theorem isSourceName_text_of_under (h : root.Under p) :
    isSourceName p.text = isSourceName p.name := by
  obtain ⟨names, hne, -, rfl⟩ := h
  rcases List.eq_nil_or_concat names with rfl | ⟨above, name, rfl⟩
  · exact absurd rfl hne
  · rw [List.concat_eq_append, name_append]
    exact isSourceName_text (List.append_assoc _ _ _).symm

private theorem wanted_iff :
    Wanted t root p ↔ (root.Under p ∧ t.isFile p = .ok true) ∧ passesThrough excluded p = false ∧
      isSourceName p.name = true := by
  constructor
  · rintro ⟨hunder, hfile, hkept, hnamed⟩
    rw [isSourceName_text_of_under hunder] at hnamed
    exact ⟨⟨hunder, hfile⟩, hkept, hnamed⟩
  · rintro ⟨⟨hunder, hfile⟩, hkept, hnamed⟩
    rw [← isSourceName_text_of_under hunder] at hnamed
    exact ⟨hunder, hfile, hkept, hnamed⟩

/-! What is found where there is a directory. -/

section Directory

variable (ht : t.Sound) (hplace : t.locate root = .ok place)
include ht hplace

/-- The files under a path are those that the tree lists below its place. -/
private theorem under_file_iff :
    root.Under p ∧ t.isFile p = .ok true ↔
      ∃ names c, isBelow place (place ++ names) = true ∧ (place ++ names, .file c) ∈ t.entries ∧
        p = { root with parts := root.parts ++ names } := by
  constructor
  · rintro ⟨⟨names, hne, hnames, rfl⟩, hfile⟩
    obtain ⟨found, c, hfound, hentry⟩ := isFile_eq_true_iff.mp hfile
    have hdots : ".." ∉ names := fun hmem => (hnames _ hmem).dots rfl
    obtain ⟨place', hplace', rfl⟩ := locate_append_eq_ok hdots hfound
    obtain rfl := Except.ok.inj (hplace.symm.trans hplace')
    have hbelow : isBelow place (place ++ names) = true := isBelow_of_fileNames hne hnames
    have hplain : t.lookup (place ++ names) ≠ some .directory := by simp [hentry]
    exact ⟨names, c, hbelow, ht.mem_entries_iff.mpr ⟨not_surrounding hplain, hentry⟩, rfl⟩
  · rintro ⟨names, c, hbelow, hmem, rfl⟩
    obtain ⟨-, hentry⟩ := ht.mem_entries_iff.mp hmem
    obtain ⟨name, rest, heq, -⟩ := isBelow_append_iff.mp hbelow
    refine ⟨⟨names, by simp [heq], (ht.way hbelow hentry).1, rfl⟩, ?_⟩
    exact isFile_eq_true_iff.mpr ⟨_, c, ht.locate_below hplace hbelow hentry, hentry⟩

variable (hdir : t.lookup place = some .directory)
include hdir

theorem filesBelow_spec :
    ∃ files, filesBelow t root = .ok files ∧ files.Nodup ∧
      ∀ p, p ∈ files ↔ root.Under p ∧ t.isFile p = .ok true := by
  refine ⟨_, filesBelow_of_isDir hplace hdir, ?_, fun p => ?_⟩
  · have hnodup : (((t.below place).filter isFileEntry).map Prod.fst).Nodup :=
      (nodup_below ht.ordered).sublist (List.filter_sublist.map _)
    have hinj : Function.Injective fun names => { root with parts := root.parts ++ names } := by
      intro names names' heq
      simpa using heq
    have hpaths := List.Nodup.map hinj hnodup
    rwa [List.map_map] at hpaths
  · rw [under_file_iff ht hplace, List.mem_map]
    constructor
    · rintro ⟨⟨names, e⟩, hx, rfl⟩
      obtain ⟨hmem, hfile⟩ := List.mem_filter.mp hx
      obtain ⟨hbelow, hentry⟩ := mem_below_iff.mp hmem
      cases e with
      | directory => cases hfile
      | file c => exact ⟨names, c, hbelow, hentry, rfl⟩
    · rintro ⟨names, c, hbelow, hentry, rfl⟩
      exact ⟨(names, .file c), List.mem_filter.mpr ⟨mem_below_iff.mpr ⟨hbelow, hentry⟩, rfl⟩, rfl⟩

private theorem testFiles_spec :
    ∃ scanned, testFiles t root = .ok scanned ∧ scanned.Nodup ∧
      ∀ p, p ∈ scanned ↔ Wanted t root p := by
  obtain ⟨files, hfiles, hnodup, hmem⟩ := filesBelow_spec ht hplace hdir
  refine ⟨files.filter isWanted, by rw [testFiles, hfiles]; rfl, hnodup.filter _, fun p => ?_⟩
  rw [List.mem_filter, hmem, isWanted, any_patterns_fits, Bool.and_eq_true, Bool.not_eq_true',
    wanted_iff]

private theorem mem_directories_iff :
    ∃ found, Glob.directories t root = .ok found ∧
      ∀ d, d ∈ found ↔ ∃ names, (∀ name ∈ names, FileName name) ∧
        t.lookup (place ++ names) = some .directory ∧
        d = { root with parts := root.parts ++ names } := by
  refine ⟨_, by rw [Glob.directories, hplace]; rfl, fun d => ?_⟩
  rw [List.mem_cons, List.mem_append, List.mem_filterMap]
  constructor
  · rintro (rfl | hd | ⟨⟨k, e⟩, hmem, hd⟩)
    · exact ⟨[], by simp, by simpa using hdir, by simp⟩
    · split_ifs at hd with htop
      · obtain rfl := List.mem_singleton.mp hd
        exact ⟨["tmp"], by decide, by rw [htop]; rfl, rfl⟩
      · cases hd
    · dsimp only at hd
      split_ifs at hd with hcond
      obtain ⟨he, hbelow⟩ := Bool.and_eq_true_iff.mp hcond
      obtain ⟨name, rest, rfl, -⟩ := isBelow_iff.mp hbelow
      rw [List.drop_left] at hd
      obtain ⟨-, hentry⟩ := ht.mem_entries_iff.mp hmem
      cases e with
      | file c => cases he
      | directory =>
        exact ⟨name :: rest, (ht.way hbelow hentry).1, hentry, (Option.some.inj hd).symm⟩
  · rintro ⟨names, hnames, hentry, rfl⟩
    by_cases hne : names = []
    · exact .inl (by simp [hne])
    · have hbelow : isBelow place (place ++ names) = true := isBelow_of_fileNames hne hnames
      by_cases hs : isSurrounding (place ++ names) = true
      · obtain ⟨htop, rfl⟩ := eq_of_isBelow_of_isSurrounding hbelow hs
        exact .inr (.inl (by simp [htop]))
      · refine .inr (.inr ⟨(place ++ names, .directory), ?_, ?_⟩)
        · exact ht.mem_entries_iff.mpr ⟨Bool.eq_false_iff.mpr hs, hentry⟩
        · simp [hbelow, Entry.isDirectory]

section Listed

variable {ds : List Path} (hds : Glob.directories t root = .ok ds)
include hds

private theorem mem_flatMap_fitting (pattern : String) :
    p ∈ ds.flatMap (fitting t pattern) ↔
      ∃ names e, isBelow place (place ++ names) = true ∧ (place ++ names, e) ∈ t.entries ∧
        p = { root with parts := root.parts ++ names } ∧ Glob.fits pattern p.name = true := by
  obtain ⟨ds', hds', hmem⟩ := mem_directories_iff ht hplace hdir
  obtain rfl := Except.ok.inj (hds.symm.trans hds')
  rw [List.mem_flatMap]
  constructor
  · rintro ⟨d, hd, hp⟩
    obtain ⟨above, habove, hopen, rfl⟩ := (hmem d).mp hd
    rw [mem_fitting_iff (ht.locate_append hplace habove hopen) hopen] at hp
    obtain ⟨name, e, hentry, hfits, rfl⟩ := hp
    have hnames : ∀ n ∈ above ++ [name], FileName n :=
      List.forall_mem_append.mpr ⟨habove, by simpa using (ht.grown_child hentry).1⟩
    simp only [List.append_assoc] at hentry ⊢
    refine ⟨above ++ [name], e, isBelow_of_fileNames (by simp) hnames, hentry, rfl, ?_⟩
    rwa [name_append]
  · rintro ⟨names, e, hbelow, hentry, rfl, hfits⟩
    obtain ⟨above, name, rfl, habove, hopen⟩ :=
      ht.exists_above hbelow (ht.mem_entries_iff.mp hentry).2
    refine ⟨_, (hmem _).mpr ⟨above, habove, hopen, rfl⟩, ?_⟩
    rw [mem_fitting_iff (ht.locate_append hplace habove hopen) hopen]
    rw [name_append] at hfits
    exact ⟨name, e, by rwa [List.append_assoc], hfits, by simp⟩

private theorem byPattern_eq (skipped : List String) {pattern : String}
    (hpattern : pattern ∈ patterns) :
    byPattern t root (some skipped) pattern = .ok (matching t skipped ds pattern) := by
  have hroot : t.isDir root = .ok true := isDir_eq_true_iff.mpr ⟨place, hplace, hdir⟩
  rw [byPattern, stepsOf_pattern pattern hpattern]
  change ((Glob.findBelow t root [.wildcard pattern]).mapError Fault.file >>= _) = _
  rw [findBelow_wildcard hroot hds]
  refine Lists.filterM_eq_ok_filter fun p hp => ?_
  -- A path that was found leads to something, so it can be asked whether that is a file.
  have hfound := List.mem_eraseDups.mp (List.mem_of_mem_filter hp)
  obtain ⟨names, e, hbelow, hentry, rfl, -⟩ :=
    (mem_flatMap_fitting ht hplace hdir hds pattern).mp hfound
  obtain ⟨-, hlookup⟩ := ht.mem_entries_iff.mp hentry
  rw [isFile_of_locate (ht.locate_below hplace hbelow hlookup)]
  rfl

private theorem mem_matching_iff {skipped : List String} {pattern : String} :
    p ∈ matching t skipped ds pattern ↔
      root.Under p ∧ t.isFile p = .ok true ∧ passesThrough skipped p = false ∧
        Glob.fits pattern p.name = true := by
  have hasked : (t.isFile p).toOption.getD false = true ↔ t.isFile p = .ok true := by
    cases t.isFile p with
    | error f => simp [Except.toOption]
    | ok b => simp [Except.toOption]
  rw [matching, List.mem_filter, List.mem_filter, List.mem_eraseDups, hasked,
    mem_flatMap_fitting ht hplace hdir hds, Bool.not_eq_true']
  constructor
  · rintro ⟨⟨⟨names, e, hbelow, hentry, rfl, hfits⟩, hskip⟩, hfile⟩
    obtain ⟨-, hlookup⟩ := ht.mem_entries_iff.mp hentry
    obtain ⟨name, rest, heq, -⟩ := isBelow_append_iff.mp hbelow
    exact ⟨⟨names, by simp [heq], (ht.way hbelow hlookup).1, rfl⟩, hfile, hskip, hfits⟩
  · rintro ⟨hunder, hfile, hskip, hfits⟩
    obtain ⟨names, c, hbelow, hentry, heq⟩ :=
      (under_file_iff ht hplace).mp ⟨hunder, hfile⟩
    exact ⟨⟨⟨names, .file c, hbelow, hentry, heq, hfits⟩, hskip⟩, hfile⟩

end Listed

private theorem byPatterns_spec :
    ∃ found, byPatterns t root patterns (some excluded) = .ok found ∧ found.Nodup ∧
      ∀ p, p ∈ found ↔ Wanted t root p := by
  obtain ⟨ds, hds, -⟩ := mem_directories_iff ht hplace hdir
  have hmem : ∀ pattern p, p ∈ matching t excluded ds pattern ↔
      root.Under p ∧ t.isFile p = .ok true ∧ passesThrough excluded p = false ∧
        Glob.fits pattern p.name = true :=
    fun _ _ => mem_matching_iff ht hplace hdir hds
  refine ⟨(patterns.map (matching t excluded ds)).flatten, ?_, ?_, fun p => ?_⟩
  · rw [byPatterns, Lists.mapM_eq_ok_map fun pattern hpattern =>
      byPattern_eq ht hplace hdir hds excluded hpattern]
    rfl
  · -- Each pattern finds a file once, and what one pattern finds no other one does.
    rw [List.nodup_flatten, List.forall_mem_map, List.pairwise_map]
    refine ⟨fun pattern _ => ((Order.nodup_eraseDups _).filter _).filter _, ?_⟩
    refine patterns_exclusive.imp fun {a b} hexclusive p hp hp' => ?_
    exact hexclusive p.name ((hmem a p).mp hp).2.2.2 ((hmem b p).mp hp').2.2.2
  · rw [List.mem_flatten, wanted_iff, ← any_patterns_fits, List.any_eq_true]
    constructor
    · rintro ⟨files, hfiles, hp⟩
      obtain ⟨pattern, hpattern, rfl⟩ := List.mem_map.mp hfiles
      obtain ⟨hunder, hfile, hkept, hfits⟩ := (hmem pattern p).mp hp
      exact ⟨⟨hunder, hfile⟩, hkept, pattern, hpattern, hfits⟩
    · rintro ⟨⟨hunder, hfile⟩, hkept, pattern, hpattern, hfits⟩
      exact ⟨_, List.mem_map_of_mem hpattern, (hmem pattern p).mpr ⟨hunder, hfile, hkept, hfits⟩⟩

end Directory

/-! What is found elsewhere. -/

private theorem searches_of_isDir_false (h : t.isDir root = .ok false) :
    testFiles t root = .ok [] ∧ byPatterns t root patterns (some excluded) = .ok [] := by
  constructor
  · rw [testFiles, filesBelow, h]
    rfl
  · have hnone : ∀ pattern ∈ patterns, byPattern t root (some excluded) pattern = .ok [] := by
      intro pattern hpattern
      rw [byPattern, stepsOf_pattern pattern hpattern]
      change ((Glob.findBelow t root [.wildcard pattern]).mapError Fault.file >>= _) = _
      rw [Glob.findBelow, h]
      rfl
    rw [byPatterns, Lists.mapM_eq_ok_map hnone]
    rfl

private theorem searches_of_isDir_error {e : FileFault} (h : t.isDir root = .error e) :
    testFiles t root = .error e ∧
      byPatterns t root patterns (some excluded) = .error (.file e) := by
  constructor
  · rw [testFiles, filesBelow, h]
    rfl
  · have hfirst : byPattern t root (some excluded) "*.spec.ts" = .error (.file e) := by
      rw [byPattern, stepsOf_pattern _ (by decide)]
      change ((Glob.findBelow t root [.wildcard "*.spec.ts"]).mapError Fault.file >>= _) = _
      rw [Glob.findBelow, h]
      rfl
    rw [byPatterns, patterns, List.mapM_cons, hfirst]
    rfl

end Below

/-- A search by the patterns of test files finds what a search for test files finds, in another
order and each file once: the wanted files, which keep the rules for test files. The two fail for
the same reason. -/
theorem byPatterns_perm_testFiles {t : FileTree} (ht : t.Sound) (root : Path) :
    (∀ e, t.isDir root = .error e → testFiles t root = .error e ∧
      byPatterns t root patterns (some excluded) = .error (.file e)) ∧
    ∀ b, t.isDir root = .ok b → ∃ scanned found, testFiles t root = .ok scanned ∧
      byPatterns t root patterns (some excluded) = .ok found ∧ found.Nodup ∧
      found.Perm scanned ∧ (∀ p, p ∈ found ↔ Wanted t root p) ∧
      ∀ p ∈ found, FileCheck.testFile t (some (.path p)) = .ok p := by
  refine ⟨fun e => searches_of_isDir_error, fun b hb => ?_⟩
  cases b with
  | false =>
    obtain ⟨hscan, hfind⟩ := searches_of_isDir_false hb
    refine ⟨[], [], hscan, hfind, List.nodup_nil, List.Perm.refl _, fun p => ?_, by simp⟩
    refine iff_of_false (by simp) fun hp => ?_
    have hdir := isDir_of_under ht hp.under hp.isFile
    rw [hb] at hdir
    cases hdir
  | true =>
    obtain ⟨place, hplace, hdir⟩ := isDir_eq_true_iff.mp hb
    obtain ⟨scanned, hscan, hnodup, hscanned⟩ := testFiles_spec ht hplace hdir
    obtain ⟨found, hfind, hnodup', hfound⟩ := byPatterns_spec ht hplace hdir
    have hperm : found.Perm scanned := by
      apply (List.perm_ext_iff_of_nodup hnodup' hnodup).mpr
      intro p
      rw [hfound, hscanned]
    refine ⟨scanned, found, hscan, hfind, hnodup', hperm, hfound, fun p hp => ?_⟩
    have hwanted := (hfound p).mp hp
    exact FileCheck.testFile_of_isSourceName hwanted.isFile (wanted_iff.mp hwanted).2.2

def planting : List Edit :=
  [.makeDirectory { parts := ["node_modules"] },
    .write { parts := ["node_modules", "a.spec.ts"] } (.bytes "".toUTF8),
    .makeDirectory { parts := ["src"] },
    .write { parts := ["src", "b.test.tsx"] } (.bytes "".toUTF8)]

def grove : FileTree :=
  { entries := [(["node_modules"], .directory),
      (["node_modules", "a.spec.ts"], .file (.bytes "".toUTF8)), (["src"], .directory),
      (["src", "b.test.tsx"], .file (.bytes "".toUTF8))] }

private theorem sound_grove : grove.Sound := by
  have hnormal : ∀ edit ∈ planting, edit.path.Normal := by decide
  have hgrown : planting.foldlM edited {} = .ok grove := rfl
  exact sound_empty.editedAll hnormal hgrown

theorem byPatterns_perm_testFiles_grove :
    grove.Sound ∧ ∃ scanned found, testFiles grove {} = .ok scanned ∧
      byPatterns grove {} patterns (some excluded) = .ok found ∧ found.Perm scanned ∧
      { parts := ["src", "b.test.tsx"] } ∈ found ∧
      { parts := ["node_modules", "a.spec.ts"] } ∉ found := by
  obtain ⟨-, hsearch⟩ := byPatterns_perm_testFiles sound_grove {}
  obtain ⟨scanned, found, hscan, hfind, -, hperm, hwanted, -⟩ := hsearch true rfl
  refine ⟨sound_grove, scanned, found, hscan, hfind, hperm, (hwanted _).mpr ?_, ?_⟩
  · exact ⟨⟨["src", "b.test.tsx"], by decide, by decide, rfl⟩, rfl, by decide, by decide⟩
  · intro hmem
    exact absurd ((hwanted _).mp hmem).kept (by decide)

end Scan
end SuiteTidy
