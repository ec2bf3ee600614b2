import SuiteTidy.Proofs.Lists
import SuiteTidy.Proofs.Plan.DryRun
import SuiteTidy.Proofs.Plan.Overwriting
import SuiteTidy.Proofs.Plan.Targets

/-!
The files of a split by groups. Two groups get one file between them if their names have the same
slug, and one of them gets the file that is being split if only marks of tests stand in its way.
Main statement: these are the only ways in which a group can be lost, and an execution reports a
file for each group all the same.
-/

set_option autoImplicit false
set_option relaxedAutoImplicit false

namespace SuiteTidy

/-! Where the files of operations land. -/

namespace FileTree

/-- The place that a path leads to, or the top if it leads nowhere. -/
def landing (t : FileTree) (p : Path) : Place := (t.locate p).toOption.getD []

private theorem landing_eq {t : FileTree} {p : Path} {place : Place} (h : t.locate p = .ok place) :
    t.landing p = place := by
  rw [landing, h]
  rfl

private theorem HoldsAfter.fileAt_of_mem {ws : List (Place × Content)} {t t' : FileTree}
    (h : HoldsAfter ws t t') {place : Place} (hplace : place ∈ ws.map Prod.fst) :
    ∃ c, (place, c) ∈ ws ∧ t'.fileAt place = some c := by
  rw [h place, lastWritten]
  cases hlast : ws.reverse.lookup place with
  | none =>
    obtain ⟨x, hx, rfl⟩ := List.mem_map.mp hplace
    have hother := List.lookup_eq_none_iff.mp hlast x (List.mem_reverse.mpr hx)
    simp at hother
  | some c =>
    obtain ⟨before, after, hws, -⟩ := List.lookup_eq_some_iff.mp hlast
    have hmem : (place, c) ∈ ws.reverse := by simp [hws]
    exact ⟨c, List.mem_reverse.mp hmem, rfl⟩

end FileTree

namespace SafeFile

open FileTree

/-- How an attempt to write a text to a file can end: before anything was done, with the directories
above the file, or with the file. -/
private theorem written_cases (target : Option FileRef) (content : String) (t : FileTree) :
    written target content t = (false, t) ∨
      ∃ p, pathOf target = .ok p ∧
        (written target content t = (false, t.ensured p.parent) ∨
          ∃ place, (t.ensured p.parent).locate p = .ok place ∧
            (t.ensured p.parent).lookup place ≠ some .directory ∧
            written target content t =
              (true, (t.ensured p.parent).put place (.file (.bytes content.toUTF8)))) := by
  cases hpath : pathOf target with
  | error f => exact .inl (by simp [written, hpath])
  | ok p =>
    refine .inr ⟨p, rfl, ?_⟩
    cases hexists : (t.ensured p.parent).exists_ p with
    | error e => exact .inl (by simp [written, hpath, hexists])
    | ok b =>
      cases hwritten : (t.ensured p.parent).writeText p content with
      | error e => exact .inl (by simp [written, hpath, hexists, hwritten])
      | ok t' =>
        obtain ⟨place, hplace, hfree, rfl⟩ := writeContent_eq_ok hwritten
        exact .inr ⟨place, hplace, hfree, by simp [written, hpath, hexists, hwritten]⟩

private theorem keepsDirectories_written (target : Option FileRef) (content : String)
    (t : FileTree) : KeepsDirectories t (written target content t).2 := by
  rcases written_cases target content t with h | ⟨p, -, h | ⟨place, -, hfree, h⟩⟩
  · rw [h]
    exact (Furnished.refl t).directories_stay
  · rw [h]
    exact (furnished_ensured p.parent t).directories_stay
  · rw [h]
    exact (furnished_ensured p.parent t).directories_stay.trans (keepsDirectories_put hfree _)

private theorem writing_eq {p : Path} {content : String} {t t' : FileTree}
    (h : (written (some (.path p)) content t).1 = true)
    (hlater : KeepsDirectories (written (some (.path p)) content t).2 t') :
    t'.locate p = .ok (t'.landing p) ∧
      writing (some (.path p)) content t = [(t'.landing p, .bytes content.toUTF8)] := by
  have hpath : pathOf (some (.path p)) = .ok p := rfl
  rcases written_cases (some (.path p)) content t with
    hend | ⟨q, hq, hend | ⟨place, hplace, hfree, hend⟩⟩
  · simp [hend] at h
  · simp [hend] at h
  · obtain rfl : p = q := Except.ok.inj (hpath.symm.trans hq)
    rw [hend] at hlater
    have hstill : t'.locate p = .ok place :=
      locate_eq_ok ((keepsDirectories_put hfree _).trans hlater) hplace
    rw [landing_eq hstill, writing, hpath]
    simp only [hend, hplace]
    exact ⟨hstill, trivial⟩

end SafeFile

namespace Execution

open FileTree

variable {now : Moment} {p : Plan} {t t' : FileTree}

private theorem keepsDirectories_performOn (hasGenerator : Bool) (now : Moment) (p : Plan)
    (o : Operation) (t : FileTree) : KeepsDirectories t (performOn hasGenerator now p o t).2 := by
  unfold performOn createFileOn
  split_ifs
  · exact SafeFile.keepsDirectories_written o.target _ t
  · exact (Furnished.refl t).directories_stay
  · exact (Furnished.refl t).directories_stay

private theorem keepsDirectories_performAllOn (hasGenerator : Bool) (now : Moment) (p : Plan)
    (n : Nat) (os : List (Option Operation)) (t : FileTree) :
    KeepsDirectories t (performAllOn hasGenerator now p n os t).2 := by
  induction os generalizing p n t with
  | nil => exact (Furnished.refl t).directories_stay
  | cons o os ih =>
    cases o with
    | none => exact (Furnished.refl t).directories_stay
    | some o =>
      exact (keepsDirectories_performOn hasGenerator now p o t).trans (ih _ _ _)

private theorem performOn_of_written {o : Operation} (hcreate : o.action = "create")
    (h : (SafeFile.written o.target (contentFor now p o) t).1 = true) :
    performOn true now p o t =
      ((noteCreated p o, true), (SafeFile.written o.target (contentFor now p o) t).2) := by
  simp [performOn, createFileOn, hcreate, h]

-- The text of a file does not depend on the files that its plan has created so far.
private theorem contentFor_noteCreated (o o' : Operation) :
    contentFor now (noteCreated p o) o' = contentFor now p o' := by
  unfold noteCreated
  split
  · rfl
  · rfl

private theorem writingsOf_creations {α : Type} {file : α → Path} {op : α → Operation}
    {xs : List α} {n : Nat}
    (hop : ∀ x, (op x).action = "create" ∧ (op x).target = some (.path (file x)))
    (h : ∀ done x rest, xs = done ++ x :: rest →
      (SafeFile.written (op x).target (contentFor now p (op x))
        (performAllOn true now p n (done.map fun y => some (op y)) t).2).1 = true)
    (hlater : KeepsDirectories (performAllOn true now p n (xs.map fun y => some (op y)) t).2 t') :
    (∀ x ∈ xs, t'.locate (file x) = .ok (t'.landing (file x))) ∧
      writingsOf true now p (xs.map fun y => some (op y)) t =
        xs.map fun x => (t'.landing (file x), .bytes (contentFor now p (op x)).toUTF8) := by
  induction xs generalizing p n t with
  | nil => exact ⟨by simp, rfl⟩
  | cons x xs ih =>
    obtain ⟨hcreate, htarget⟩ := hop x
    have hfirst : (SafeFile.written (op x).target (contentFor now p (op x)) t).1 = true :=
      h [] x xs rfl
    have hdone := performOn_of_written hcreate hfirst
    simp only [List.map_cons, performAllOn, hdone, if_true] at hlater
    have hrest : ∀ done y rest, xs = done ++ y :: rest →
        (SafeFile.written (op y).target (contentFor now (noteCreated p (op x)) (op y))
          (performAllOn true now (noteCreated p (op x)) (n + 1)
            (done.map fun z => some (op z)) (SafeFile.written (op x).target
              (contentFor now p (op x)) t).2).2).1 = true := by
      intro done y rest hxs
      have hturn := h (x :: done) y rest (by rw [hxs]; rfl)
      simpa only [List.map_cons, performAllOn, hdone, if_true, contentFor_noteCreated] using hturn
    obtain ⟨hothers, hwritings⟩ := ih hrest hlater
    have hkept := (keepsDirectories_performAllOn true now (noteCreated p (op x)) (n + 1)
      (xs.map fun y => some (op y)) _).trans hlater
    obtain ⟨hlocated, hwriting⟩ : t'.locate (file x) = .ok (t'.landing (file x)) ∧
        SafeFile.writing (op x).target (contentFor now p (op x)) t =
          [(t'.landing (file x), .bytes (contentFor now p (op x)).toUTF8)] := by
      rw [htarget] at hfirst hkept ⊢
      exact SafeFile.writing_eq hfirst hkept
    refine ⟨List.forall_mem_cons.mpr ⟨hlocated, hothers⟩, ?_⟩
    simp only [List.map_cons, writingsOf, writingOf, hcreate, and_self, if_true, hdone, hwriting,
      hwritings, contentFor_noteCreated, List.singleton_append]

end Execution

namespace Planning

open FileTree

variable {t : TestFile}

/-! The targets. -/

private theorem files_eq_iff {folder : Path} {way way' : List String × String} {ending : String} :
    ({ folder with parts := folder.parts ++ way.1 ++ [way.2 ++ ending] } : Path) =
        { folder with parts := folder.parts ++ way'.1 ++ [way'.2 ++ ending] } ↔
      way = way' := by
  constructor
  · intro heq
    obtain ⟨hnames, hlast⟩ := List.append_inj' (Path.mk.inj heq).2 rfl
    rw [List.cons.injEq, String.append_left_inj] at hlast
    exact Prod.ext (List.append_cancel_left hnames) hlast.1
  · intro heq
    rw [heq]

private theorem categoryFile_eq_iff (h : t.facts.path.ChildOf t.facts.path.parent) (c c' : String) :
    categoryFile t c = categoryFile t c' ↔
      Path.way (front t ++ slug c) = Path.way (front t ++ slug c') := by
  rw [categoryFile, categoryFile, beside_eq h, beside_eq h]
  exact files_eq_iff

private theorem path_eq (h : t.facts.path.ChildOf t.facts.path.parent) :
    t.facts.path.name ≠ ".." ∧
      t.facts.path = { t.facts.path.parent with
        parts := t.facts.path.parent.parts ++ [t.facts.path.name] } := by
  obtain ⟨name, -, -, hdots, heq⟩ := h
  have hname : t.facts.path.name = name := by
    rw [heq]
    simp [Path.name]
  rw [hname]
  exact ⟨hdots, heq⟩

private theorem categoryFile_eq_path_iff (h : t.facts.path.ChildOf t.facts.path.parent)
    (c : String) :
    categoryFile t c = t.facts.path ↔
      Path.Flat (front t ++ slug c) ∧
        t.facts.path.name = (Path.way (front t ++ slug c)).2 ++ ".spec.ts" := by
  constructor
  · intro heq
    have hchild : (beside t (slug c)).ChildOf t.facts.path.parent := by
      change (categoryFile t c).ChildOf t.facts.path.parent
      rw [heq]
      exact h
    have hname := congrArg Path.name heq
    rw [categoryFile, beside_eq h] at hname
    exact ⟨(beside_childOf_iff h _).mp hchild, by simpa [Path.name] using hname.symm⟩
  · rintro ⟨hflat, hname⟩
    rw [categoryFile, beside_eq h, Path.flat_iff.mp hflat, List.append_nil, ← hname]
    exact (path_eq h).2.symm

private theorem way_slug (h : t.facts.path.ChildOf t.facts.path.parent) {c : String}
    (hc : '/' ∉ c.toList) : Path.way (front t ++ slug c) = ([], front t ++ slug c) := by
  apply Path.way_of_not_mem
  rw [String.toList_append, List.mem_append, not_or, (respelled_slug c).slash_mem_iff]
  exact ⟨slash_not_mem_front h, hc⟩

private theorem categoryFile_eq_iff_slug (h : t.facts.path.ChildOf t.facts.path.parent)
    {c c' : String} (hc : '/' ∉ c.toList) (hc' : '/' ∉ c'.toList) :
    categoryFile t c = categoryFile t c' ↔ slug c = slug c' := by
  rw [categoryFile_eq_iff h, way_slug h hc, way_slug h hc', Prod.mk.injEq,
    String.append_right_inj]
  simp

/-! The places after an execution. -/

private theorem exists_folder (h : t.facts.path.ChildOf t.facts.path.parent) {c : String}
    (hc : '/' ∉ c.toList) {tree : FileTree} {place : Place}
    (hplace : tree.locate (categoryFile t c) = .ok place) :
    ∃ folder, tree.locate t.facts.path.parent = .ok folder ∧
      place = folder ++ [front t ++ slug c ++ ".spec.ts"] := by
  rw [categoryFile, beside_eq h, way_slug h hc, List.append_nil] at hplace
  exact locate_child_eq_ok (Path.append_ending_ne_dots _ (by decide)) hplace

def categoryOperation (t : TestFile) (c : String) : Operation :=
  creation t (categoryFile t c) ("Category: " ++ c)

/-- What a plan to split a file by its groups leaves: what was written last stands at the place of
each file, and everything else is as it was. For names without slashes the places are one only if
the slugs are one, and one is that of the source only if the names are. -/
structure LeavesFiles (t : TestFile) (p : Plan) (w w' : Workspace) (place : String → Place) :
    Prop where
  located : ∀ c ∈ t.categories, w'.files.locate (categoryFile t c) = .ok (place c)
  held : HoldsAfter (t.categories.map fun c =>
    (place c, .bytes (Execution.contentFor w.now p (categoryOperation t c)).toUTF8))
    w.files w'.files
  same_iff : ∀ c ∈ t.categories, ∀ c' ∈ t.categories, '/' ∉ c.toList → '/' ∉ c'.toList →
    (place c = place c' ↔ slug c = slug c')
  source_iff : ∀ source, w'.files.locate t.facts.path = .ok source → ∀ c ∈ t.categories,
    '/' ∉ c.toList → (place c = source ↔ t.facts.path.name = front t ++ slug c ++ ".spec.ts")

private theorem needsRefactoring_of_many (hmany : 6 < t.categories.length) :
    t.needsRefactoring := by
  simp [TestFile.needsRefactoring, hmany]

private theorem planned_operations (hmany : 6 < t.categories.length) (id : String) (now : Moment) :
    (planned id now t).operations = t.categories.map fun c => some (categoryOperation t c) := by
  have haction : (choose t).1 = .splitByCategory := by
    rcases choose_cases (needsRefactoring_of_many hmany) with ⟨haction, -⟩ | ⟨-, hfew⟩
    · exact haction
    · omega
  simp only [planned, haction, operationsFor, categoryOperations_eq, List.map_map]
  rfl

private theorem planned_isExecutable (hmany : 6 < t.categories.length) (id : String)
    (now : Moment) : (planned id now t).isExecutable = true := by
  have hne := operationsFor_ne_nil (needsRefactoring_of_many hmany)
  simp [Plan.isExecutable, planned, hne, (confidence_bounds _ _).1]

private theorem leavesFiles_of_held (h : t.facts.path.ChildOf t.facts.path.parent) {p : Plan}
    {w w' : Workspace} {place : String → Place}
    (hlocated : ∀ c ∈ t.categories, w'.files.locate (categoryFile t c) = .ok (place c))
    (hheld : HoldsAfter (t.categories.map fun c =>
      (place c, .bytes (Execution.contentFor w.now p (categoryOperation t c)).toUTF8))
      w.files w'.files) : LeavesFiles t p w w' place where
  located := hlocated
  held := hheld
  same_iff c hc c' hc' hslash hslash' := by
    obtain ⟨folder, hfolder, hplace⟩ := exists_folder h hslash (hlocated c hc)
    obtain ⟨folder', hfolder', hplace'⟩ := exists_folder h hslash' (hlocated c' hc')
    rw [hfolder, Except.ok.injEq] at hfolder'
    rw [hplace, hplace', ← hfolder', List.append_cancel_left_eq, List.cons.injEq,
      String.append_left_inj, String.append_right_inj]
    simp
  source_iff source hsource c hc hslash := by
    obtain ⟨hdots, hpath⟩ := path_eq h
    obtain ⟨folder, hfolder, hplace⟩ := exists_folder h hslash (hlocated c hc)
    rw [hpath] at hsource
    obtain ⟨folder', hfolder', hplace'⟩ := locate_child_eq_ok hdots hsource
    have hsame : folder = folder' := Except.ok.inj (hfolder.symm.trans hfolder')
    rw [hplace, hplace', ← hsame, List.append_cancel_left_eq, List.cons.injEq, eq_comm]
    simp

section Run

open Execution Plan

private theorem total_creations (hmany : 6 < t.categories.length) (id : String) (now : Moment) :
    total creations ([planned id now t].filter runsThrough) = t.categories.length := by
  have hthrough : (planned id now t).runsThrough = true := by
    rw [runsThrough, planned_isExecutable hmany, planned_operations hmany]
    simp
  have hall : (planned id now t).creations = (planned id now t).operations.length := by
    rw [creations_eq_iff, planned_operations hmany, List.forall_mem_map]
    intro c _
    exact ⟨categoryOperation t c, rfl, rfl⟩
  simp [total, hthrough, hall, planned_operations hmany]

private theorem written_in_turn (hmany : 6 < t.categories.length) {id : String} {now : Moment}
    {w : Workspace} (hcan : CanCreate true [planned id now t] w) {done rest : List String}
    {c : String} (hc : t.categories = done ++ c :: rest) :
    (SafeFile.written (categoryOperation t c).target
      (contentFor w.now ((planned id now t).markExecuting w.now) (categoryOperation t c))
      (performAllOn true w.now ((planned id now t).markExecuting w.now) 0
        (done.map fun x => some (categoryOperation t x)) w.files).2).1 = true := by
  have hexec := isExecutable_iff.mp (planned_isExecutable hmany id now)
  have hops : (planned id now t).operations = (done.map fun x => some (categoryOperation t x)) ++
      some (categoryOperation t c) :: rest.map fun x => some (categoryOperation t x) := by
    rw [planned_operations hmany, hc, List.map_append, List.map_cons]
  obtain ⟨-, hwrite⟩ := hcan [] _ [] rfl hexec _ _ _ hops (by simp) rfl
  rw [write_eq_true_iff, reached_files] at hwrite
  exact hwrite

private theorem run_leavesFiles (hmany : 6 < t.categories.length)
    (h : t.facts.path.ChildOf t.facts.path.parent) (id : String) (now : Moment) (w : Workspace)
    (hcan : CanCreate true [planned id now t] w) :
    ∃ qs tally w' place,
      Execution.run { plans := [planned id now t] } w = (.ok (qs, tally), w') ∧
      tally.filesCreated = t.categories.length ∧
      LeavesFiles t (planned id now t) w w' place := by
  obtain ⟨qs, w', hrun⟩ := run_live (r := { plans := [planned id now t] }) hcan
  obtain ⟨words, hacts⟩ := acts_live (r := { plans := [planned id now t] }) rfl w
  have hfiles : w'.files = (executePlansOn true w.now [planned id now t] w.files).2 := by
    rw [(Prod.mk.inj (hrun.symm.trans hacts)).2]
  have hreached : KeepsDirectories (performAllOn true w.now ((planned id now t).markExecuting w.now)
      0 (t.categories.map fun c => some (categoryOperation t c)) w.files).2 w'.files := by
    have hexec := isExecutable_iff.mp (planned_isExecutable hmany id now)
    rw [← planned_operations hmany id now, ← executePlanOn_files hexec, hfiles]
    exact (Furnished.refl _).directories_stay
  have hwritings : writings true w.now [planned id now t] w.files =
      writingsOf true w.now ((planned id now t).markExecuting w.now)
        (planned id now t).operations w.files := by
    simp [writings, planned_isExecutable hmany]
  obtain ⟨hlocated, hlanded⟩ := writingsOf_creations (fun c => ⟨rfl, rfl⟩)
    (fun done c rest hc => written_in_turn hmany hcan hc) hreached
  have hheld := holdsAfter_executePlansOn true w.now [planned id now t] w.files
  rw [hwritings, planned_operations hmany, hlanded, ← hfiles] at hheld
  exact ⟨qs, _, w', fun c => w'.files.landing (categoryFile t c), hrun,
    total_creations hmany id now, leavesFiles_of_held h hlocated hheld⟩

/-- A file with more than six groups gets a plan that creates one file for each. Two files are one
exactly if the slugs of the groups lead the same way behind the start of the file names, which for
names without slashes means that the slugs are the same. The source is among them exactly if a slug
leads to its name. An execution that can write all files counts one for each group even then. -/
theorem category_files_distinct_iff (hmany : 6 < t.categories.length)
    (hsource : t.facts.path.ChildOf t.facts.path.parent) (id : String) (now : Moment) :
    ∃ p, planFor id now t = .ok p ∧
      p.operations = t.categories.map (fun c => some (categoryOperation t c)) ∧
      ((t.categories.map (categoryFile t)).Nodup ↔
        (t.categories.map fun c => Path.way (front t ++ slug c)).Nodup) ∧
      ((∀ c ∈ t.categories, '/' ∉ c.toList) →
        ((t.categories.map (categoryFile t)).Nodup ↔ (t.categories.map slug).Nodup)) ∧
      (t.facts.path ∈ t.categories.map (categoryFile t) ↔
        ∃ c ∈ t.categories, Path.Flat (front t ++ slug c) ∧
          t.facts.path.name = (Path.way (front t ++ slug c)).2 ++ ".spec.ts") ∧
      ∀ w, CanCreate true [p] w →
        ∃ qs tally w' place, Execution.run { plans := [p] } w = (.ok (qs, tally), w') ∧
          tally.filesCreated = t.categories.length ∧ LeavesFiles t p w w' place := by
  refine ⟨planned id now t, planFor_eq (needsRefactoring_of_many hmany) id now,
    planned_operations hmany id now, ?_, ?_, ?_, run_leavesFiles hmany hsource id now⟩
  · exact Lists.nodup_map_iff fun c _ c' _ => categoryFile_eq_iff hsource c c'
  · intro hslash
    exact Lists.nodup_map_iff fun c hc c' hc' =>
      categoryFile_eq_iff_slug hsource (hslash c hc) (hslash c' hc')
  · simp only [List.mem_map, categoryFile_eq_path_iff hsource]

/-- A file with seven groups, of which two pairs differ in case and in a space alone, and one is
named like a mark of tests. -/
def colliding : TestFile :=
  { grouped 0 with
    facts := { (grouped 0).facts with path := { parts := ["user.test.spec.ts"] } }
    categories := ["Test", "Login", "login", "sign up", "sign-up", "Roles", "Audit"] }

def collidingFiles : Workspace :=
  { files := { entries := [(["user.test.spec.ts"], .file (.bytes "test".toUTF8))] }
    now := { micros := 0 } }

private theorem canCreate_of_turns {p : Plan} {w : Workspace}
    (h : ∀ i < p.operations.length, (p.operations.getD i none).all (fun o =>
      (SafeFile.written o.target (contentFor w.now p o)
        (performAllOn true w.now (p.markExecuting w.now) 0 (p.operations.take i) w.files).2).1) =
          true) :
    CanCreate true [p] w := by
  intro before q after hps _ done o rest hos _ _
  obtain ⟨rfl, rfl, -⟩ : before = [] ∧ q = p ∧ after = [] := by
    simpa [List.cons_eq_append_iff] using hps
  refine ⟨rfl, ?_⟩
  rw [write_eq_true_iff, reached_files]
  have hturn := h done.length (by simp [hos])
  rw [hos] at hturn
  simpa [executePlansOn] using hturn

/-- An execution reports seven files and leaves five, and one of these has taken the place of the
file that was to be split. -/
theorem category_files_distinct_iff_colliding :
    6 < colliding.categories.length ∧
      colliding.facts.path.ChildOf colliding.facts.path.parent ∧
      ∃ p, planFor "plan_1" { micros := 0 } colliding = .ok p ∧
        ¬(colliding.categories.map (categoryFile colliding)).Nodup ∧
        colliding.facts.path ∈ colliding.categories.map (categoryFile colliding) ∧
        CanCreate true [p] collidingFiles ∧
        ∃ qs tally w' place,
          Execution.run { plans := [p] } collidingFiles = (.ok (qs, tally), w') ∧
          tally.filesCreated = 7 ∧ LeavesFiles colliding p collidingFiles w' place ∧
          (colliding.categories.map place).eraseDups.length = 5 ∧
          collidingFiles.files.fileAt ["user.test.spec.ts"] = some (.bytes "test".toUTF8) ∧
          w'.files.fileAt ["user.test.spec.ts"] ≠ some (.bytes "test".toUTF8) := by
  have hmany : 6 < colliding.categories.length := by decide
  have hsource : colliding.facts.path.ChildOf colliding.facts.path.parent :=
    ⟨"user.test.spec.ts", by decide, by decide, by decide, rfl⟩
  obtain ⟨p, hp, -, -, hslugs, -, hrun⟩ :=
    category_files_distinct_iff hmany hsource "plan_1" { micros := 0 }
  have hplan : planned "plan_1" { micros := 0 } colliding = p :=
    Except.ok.inj ((planFor_eq (needsRefactoring_of_many hmany) _ _).symm.trans hp)
  have hcan : CanCreate true [p] collidingFiles := by
    rw [← hplan]
    apply canCreate_of_turns
    decide +kernel
  obtain ⟨qs, tally, w', place, hrun, htally, hleaves⟩ := hrun collidingFiles hcan
  have hplaces : ∀ c ∈ colliding.categories, place c = (categoryFile colliding c).parts := by
    have hnear : ∀ c ∈ colliding.categories, (categoryFile colliding c).absolute = false ∧
        ".." ∉ (categoryFile colliding c).parts := by decide +kernel
    intro c hc
    exact locate_eq_parts (hnear c hc).1 (hnear c hc).2 (hleaves.located c hc)
  refine ⟨hmany, hsource, p, hp, ?_, ?_, hcan, qs, tally, w', place, hrun, htally, hleaves, ?_, rfl,
    ?_⟩
  · rw [hslugs (by decide)]
    decide +kernel
  · exact List.mem_map.mpr ⟨"Test", by decide, by decide +kernel⟩
  · rw [List.map_congr_left hplaces]
    decide +kernel
  · have hthere : ["user.test.spec.ts"] ∈ (colliding.categories.map fun c =>
        (place c, Content.bytes (contentFor collidingFiles.now p
          (categoryOperation colliding c)).toUTF8)).map Prod.fst := by
      rw [List.map_map]
      refine List.mem_map.mpr ⟨"Test", by decide, ?_⟩
      exact (hplaces "Test" (by decide)).trans (by decide +kernel)
    obtain ⟨content, hcontent, hfile⟩ := hleaves.held.fileAt_of_mem hthere
    obtain ⟨c, hc, heq⟩ := List.mem_map.mp hcontent
    have hother : ∀ c ∈ colliding.categories, contentFor collidingFiles.now
        (planned "plan_1" { micros := 0 } colliding) (categoryOperation colliding c) ≠ "test" := by
      decide +kernel
    rw [hfile, ← (Prod.mk.inj heq).2, ← hplan]
    intro hsame
    exact hother c hc (String.toByteArray_inj.mp (Content.bytes.inj (Option.some.inj hsame)))

end Run

end Planning
end SuiteTidy
