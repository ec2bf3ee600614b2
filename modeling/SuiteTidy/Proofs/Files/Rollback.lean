import SuiteTidy.Files.Layout
import SuiteTidy.Proofs.Files.Held
import SuiteTidy.Proofs.Files.Sound
import Mathlib.Data.List.TakeWhile

/-!
Layouts that are made and taken away again. Making one adds directories and empty files and changes
nothing that is there; taking it away looks at the layout alone. Main statement: the files are as
they were before just where nothing was at the places of the files that are taken away, all new
files are among these, and the directory of the layout was the only new one or had something else in
it.
-/

set_option autoImplicit false
set_option relaxedAutoImplicit false

namespace SuiteTidy.FileTree

variable {t t' t'' : FileTree} {p : Path} {place : Place}

theorem Neat.put (ht : t.Neat) (hfree : t.lookup place ≠ some .directory) (e : Entry) :
    (t.put place e).Neat where
  ordered := ordered_put ht.ordered _ _
  inner := by
    intro x hx
    rcases mem_insertEntry hx with rfl | hx
    · exact not_surrounding hfree
    · exact ht.inner x hx

theorem Neat.erase (ht : t.Neat) (place : Place) : (t.erase place).Neat where
  ordered := ordered_erase ht.ordered place
  inner := fun x hx => ht.inner x (List.mem_of_mem_filter hx)

private theorem neat_ensured (ht : t.Neat) (p : Path) : (t.ensured p).Neat := by
  refine rel_makeDirectoriesTo (R := fun t t' => t.Neat → t'.Neat) (fun h h' ht => h' (h ht))
    ?_ _ t ht
  intro n t ht
  rw [attempted]
  cases hmade : t.makeDirectory { p with parts := p.parts.take n } with
  | error e => exact ht
  | ok t' =>
    obtain ⟨place, -, hnone, rfl⟩ := makeDirectory_eq_ok hmade
    exact ht.put (by simp [hnone]) _

private theorem exists_eq_true_iff : t.exists_ p = .ok true ↔
    ∃ place e, t.locate p = .ok place ∧ t.lookup place = some e := by
  constructor
  · intro h
    cases hplace : t.locate p with
    | error f =>
      cases f <;> simp [exists_, status, entry, hplace, bind, Except.bind, pure, Except.pure] at h
    | ok place =>
      rw [exists_of_locate hplace, Except.ok.injEq] at h
      obtain ⟨e, hentry⟩ := Option.isSome_iff_exists.mp h
      exact ⟨place, e, rfl, hentry⟩
  · rintro ⟨place, e, hplace, hentry⟩
    rw [exists_of_locate hplace, hentry]
    rfl

/-! Files that are added. -/

/-- Files were added at some places, where nothing was, and nothing else happened. -/
structure AddedAt (places : Place → Prop) (t t' : FileTree) : Prop where
  kept : ∀ place e, t.lookup place = some e → t'.lookup place = some e
  added : ∀ place, t.lookup place = none → places place → ∃ c, t'.lookup place = some (.file c)
  missing : ∀ place, t.lookup place = none → ¬ places place → t'.lookup place = none
  neat : t.Neat → t'.Neat

structure TakenAt (places : Place → Prop) (t t' : FileTree) : Prop where
  gone : ∀ place, places place → t'.lookup place = none
  kept : ∀ place, ¬ places place → t'.lookup place = t.lookup place
  neat : t.Neat → t'.Neat

section Changes

variable {places others : Place → Prop}

theorem AddedAt.refl (t : FileTree) : AddedAt (fun _ => False) t t where
  kept _ _ h := h
  added _ _ h := h.elim
  missing _ h _ := h
  neat h := h

theorem AddedAt.trans (h : AddedAt places t t') (h' : AddedAt others t' t'') :
    AddedAt (fun place => places place ∨ others place) t t'' where
  kept place e hentry := h'.kept place e (h.kept place e hentry)
  added place hnone hadded := by
    by_cases hfirst : places place
    · obtain ⟨c, hfile⟩ := h.added place hnone hfirst
      exact ⟨c, h'.kept place _ hfile⟩
    · exact h'.added place (h.missing place hnone hfirst) (hadded.resolve_left hfirst)
  missing place hnone hfree := by
    rw [not_or] at hfree
    exact h'.missing place (h.missing place hnone hfree.1) hfree.2
  neat ht := h'.neat (h.neat ht)

theorem AddedAt.sameDirectories (h : AddedAt places t t') : SameDirectories t t' := by
  refine ⟨fun place hdir => h.kept place _ hdir, fun place hdir => ?_⟩
  cases hbefore : t.lookup place with
  | some e => rw [← hdir, h.kept place e hbefore]
  | none =>
    by_cases hadded : places place
    · obtain ⟨c, hfile⟩ := h.added place hbefore hadded
      simp [hfile] at hdir
    · simp [h.missing place hbefore hadded] at hdir

private theorem addedAt_put (hnone : t.lookup place = none) (c : Content) :
    AddedAt (· = place) t (t.put place (.file c)) where
  kept other e hentry := by
    have hne : other ≠ place := by
      rintro rfl
      simp [hnone] at hentry
    rw [lookup_put_of_ne t hne, hentry]
  added other _ hother := by
    subst hother
    exact ⟨c, lookup_put_self (not_surrounding (t := t) (by simp [hnone])) _⟩
  missing other hfree hne := by rw [lookup_put_of_ne t hne, hfree]
  neat ht := ht.put (by simp [hnone]) _

private theorem addedAt_of_present {e : Entry} (h : t.lookup place = some e) :
    AddedAt (· = place) t t where
  kept _ _ hentry := hentry
  added other hnone hother := by
    subst hother
    simp [h] at hnone
  missing _ hnone _ := hnone
  neat ht := ht

theorem AddedAt.congr (h : AddedAt places t t') (heq : ∀ place, places place ↔ others place) :
    AddedAt others t t' := by
  obtain rfl : places = others := funext fun place => propext (heq place)
  exact h

theorem TakenAt.congr (h : TakenAt places t t') (heq : ∀ place, places place ↔ others place) :
    TakenAt others t t' := by
  obtain rfl : places = others := funext fun place => propext (heq place)
  exact h

theorem TakenAt.refl (t : FileTree) : TakenAt (fun _ => False) t t where
  gone _ h := h.elim
  kept _ _ := rfl
  neat h := h

theorem TakenAt.trans (h : TakenAt places t t') (h' : TakenAt others t' t'') :
    TakenAt (fun place => places place ∨ others place) t t'' where
  gone place htaken := by
    by_cases hlast : others place
    · exact h'.gone place hlast
    · rw [h'.kept place hlast, h.gone place (htaken.resolve_right hlast)]
  kept place hfree := by
    rw [not_or] at hfree
    rw [h'.kept place hfree.2, h.kept place hfree.1]
  neat ht := h'.neat (h.neat ht)

private theorem takenAt_erase (h : isSurrounding place = false) :
    TakenAt (· = place) t (t.erase place) where
  gone other hother := by
    subst hother
    exact lookup_erase_self h
  kept other hne := lookup_erase_of_ne t hne
  neat ht := ht.erase place

theorem TakenAt.sameDirectories (h : TakenAt places t t')
    (hfiles : ∀ place, places place → t.lookup place ≠ some .directory) : SameDirectories t t' := by
  refine ⟨fun place hdir => ?_, fun place hdir => ?_⟩
  · rwa [h.kept place fun htaken => hfiles place htaken hdir]
  · have hstays : ¬ places place := fun htaken => by simp [h.gone place htaken] at hdir
    rwa [h.kept place hstays] at hdir

theorem SameDirectories.locate_eq_ok_iff (h : SameDirectories t t') :
    t'.locate p = .ok place ↔ t.locate p = .ok place :=
  ⟨locate_eq_ok h.2, locate_eq_ok h.1⟩

end Changes

end SuiteTidy.FileTree

namespace SuiteTidy.FileLayout

open SuiteTidy.FileTree

/-! Steps and loops. -/

def each (step : Path → Work Unit) (paths : List Path) : Work PUnit :=
  forIn paths PUnit.unit fun p _ => do
    step p
    pure (ForInStep.yield PUnit.unit)

private theorem each_cons (step : Path → Work Unit) (p : Path) (paths : List Path) :
    each step (p :: paths) = step p >>= fun _ => each step paths := by
  simp only [each, List.forIn_cons, bind_assoc, pure_bind]

private theorem each_cons_eq_ok {step : Path → Work Unit} {p : Path} {paths : List Path}
    {w w' : Workspace} {u : PUnit} (h : each step (p :: paths) w = (.ok u, w')) :
    ∃ v, step p w = (.ok (), v) ∧ each step paths v = (.ok u, w') := by
  rw [each_cons, Work.bind_eq_ok_iff] at h
  obtain ⟨_, v, hfirst, hrest⟩ := h
  exact ⟨v, hfirst, hrest⟩

private theorem touch_eq_ok {p : Path} {w w' : Workspace} {u : Unit} (h : touch p w = (.ok u, w')) :
    ∃ place, w.files.locate p = .ok place ∧ AddedAt (· = place) w.files w'.files := by
  rw [touch, Work.pathExists] at h
  cases hexists : w.files.exists_ p with
  | error f =>
    rw [Work.bind_error (Work.ask_error hexists)] at h
    cases (Prod.mk.inj h).1
  | ok there =>
    rw [Work.bind_ok (Work.ask_ok hexists)] at h
    cases there with
    | true =>
      obtain ⟨-, rfl⟩ := Prod.mk.inj h
      obtain ⟨place, e, hplace, hentry⟩ := exists_eq_true_iff.mp hexists
      exact ⟨place, hplace, addedAt_of_present hentry⟩
    | false =>
      obtain ⟨t, hwritten, rfl⟩ := Work.change_eq_ok h
      obtain ⟨place, hplace, -, rfl⟩ := writeContent_eq_ok hwritten
      rw [exists_of_locate hplace, Except.ok.injEq, Option.isSome_eq_false_iff,
        Option.isNone_iff_eq_none] at hexists
      exact ⟨place, hplace, addedAt_put hexists _⟩

private theorem each_touch_eq_ok {paths : List Path} {w w' : Workspace} {u : PUnit}
    (h : each touch paths w = (.ok u, w')) :
    (∀ p ∈ paths, ∃ place, w'.files.locate p = .ok place) ∧
      AddedAt (fun place => ∃ p ∈ paths, w'.files.locate p = .ok place) w.files w'.files := by
  induction paths generalizing w with
  | nil =>
    obtain ⟨-, rfl⟩ := Prod.mk.inj h
    exact ⟨by simp, (AddedAt.refl w.files).congr (by simp)⟩
  | cons p paths ih =>
    obtain ⟨v, htouch, hrest⟩ := each_cons_eq_ok h
    obtain ⟨place, hplace, hfirst⟩ := touch_eq_ok htouch
    obtain ⟨hlater, hadded⟩ := ih hrest
    have hstays : w'.files.locate p = .ok place :=
      locate_eq_ok (hfirst.sameDirectories.trans hadded.sameDirectories).1 hplace
    refine ⟨List.forall_mem_cons.mpr ⟨⟨place, hstays⟩, hlater⟩, (hfirst.trans hadded).congr ?_⟩
    intro other
    simp [hstays, eq_comm]

private theorem create_eq_true {l : FileLayout} {w : Workspace} (h : (l.create w).1 = .ok true) :
    ∃ v, each Work.makeDirectories l.directories w = (.ok .unit, v) ∧
      each touch l.files v = (.ok .unit, (l.create w).2) := by
  rcases hmade : (each Work.makeDirectories l.directories >>= fun _ =>
    each touch l.files >>= fun _ => (pure () : Work Unit)) w with ⟨r, v⟩
  have hattempt : Work.attempt (each Work.makeDirectories l.directories >>= fun _ =>
      each touch l.files >>= fun _ => (pure () : Work Unit)) w = (.ok r, v) := by
    rw [Work.attempt_apply, hmade]
  have hcreate : l.create w = _ := Work.bind_ok hattempt _
  cases r with
  | error f =>
    rw [hcreate] at h
    cases h
  | ok u =>
    rw [hcreate]
    obtain ⟨_, v', hdirectories, hrest⟩ := Work.bind_eq_ok_iff.mp hmade
    obtain ⟨_, v'', hfiles, hend⟩ := Work.bind_eq_ok_iff.mp hrest
    obtain ⟨-, rfl⟩ := Prod.mk.inj hend
    exact ⟨v', hdirectories, hfiles⟩

private theorem makeDirectories_eq_ok {p : Path} {w w' : Workspace} {u : Unit}
    (h : Work.makeDirectories p w = (.ok u, w')) :
    w'.files = w.files.ensured p ∧ w'.files.isDir p = .ok true := by
  obtain ⟨words, hrun⟩ := acts_makeDirectoriesTo p p.parts.length w
  rw [Work.makeDirectories, hrun] at h
  obtain ⟨hmade, rfl⟩ := Prod.mk.inj h
  exact ⟨rfl, isDir_of_makeDirectoriesTo hmade⟩

/-! Taking files away. -/

/-- The files that are taken away again: those in front of the first that leads to a directory. -/
def cleared (t : FileTree) (files : List Path) : List Path :=
  files.takeWhile fun p => (t.isDir p).toOption != some true

private theorem removeFile_run {p : Path} {w : Workspace} {place : Place}
    (h : w.files.locate p = .ok place) :
    ∃ r w', removeFile p w = (r, w') ∧
      (w.files.lookup place = some .directory → r ≠ .ok () ∧ w'.files = w.files) ∧
      (w.files.lookup place ≠ some .directory →
        r = .ok () ∧ TakenAt (· = place) w.files w'.files) := by
  have hask : Work.pathExists p w = (.ok (w.files.lookup place).isSome, w) :=
    Work.ask_ok (exists_of_locate h)
  rw [removeFile, Work.bind_ok hask]
  cases hentry : w.files.lookup place with
  | none =>
    refine ⟨_, w, rfl, by simp, fun _ => ⟨rfl, ?_⟩⟩
    exact ⟨fun other hother => hother ▸ hentry, fun _ _ => rfl, fun ht => ht⟩
  | some e =>
    cases e with
    | directory =>
      have hstep : w.files.removeFile p = .error (.isDirectory p) := by
        simp [FileTree.removeFile, h, hentry, bind, Except.bind]
      exact ⟨_, w, Work.change_error hstep, fun _ => ⟨by simp, rfl⟩, by simp⟩
    | file c =>
      have hstep : w.files.removeFile p = .ok (w.files.erase place) := by
        simp [FileTree.removeFile, h, hentry, bind, Except.bind, pure, Except.pure]
      have hinner : isSurrounding place = false := not_surrounding (t := w.files) (by simp [hentry])
      exact ⟨_, _, Work.change_ok hstep, by simp, fun _ => ⟨rfl, takenAt_erase hinner⟩⟩

private theorem cleared_cons_of_directory {t : FileTree} {p : Path} {place : Place}
    (hplace : t.locate p = .ok place) (hdir : t.lookup place = some .directory)
    (paths : List Path) : cleared t (p :: paths) = [] := by
  have hisDir : t.isDir p = .ok true := isDir_eq_true_iff.mpr ⟨place, hplace, hdir⟩
  rw [cleared, List.takeWhile_cons_of_neg (by simp [hisDir, Except.toOption])]

private theorem cleared_cons_of_ne {t : FileTree} {p : Path} {place : Place}
    (hplace : t.locate p = .ok place) (hdir : t.lookup place ≠ some .directory)
    (paths : List Path) : cleared t (p :: paths) = p :: cleared t paths := by
  have hisDir : t.isDir p = .ok false := by
    rw [isDir_of_locate hplace]
    cases hentry : t.lookup place with
    | none => rfl
    | some e =>
      cases e with
      | file c => rfl
      | directory => exact absurd hentry hdir
  rw [cleared, List.takeWhile_cons_of_pos (by simp [hisDir, Except.toOption])]
  rfl

private theorem cleared_congr {t t' : FileTree} (h : SameDirectories t t') {paths : List Path}
    (hpaths : ∀ p ∈ paths, ∃ place, t.locate p = .ok place) :
    cleared t' paths = cleared t paths := by
  induction paths with
  | nil => rfl
  | cons p paths ih =>
    rw [List.forall_mem_cons] at hpaths
    obtain ⟨⟨place, hplace⟩, hrest⟩ := hpaths
    have hplace' := locate_eq_ok h.1 hplace
    by_cases hdir : t.lookup place = some .directory
    · rw [cleared_cons_of_directory hplace hdir, cleared_cons_of_directory hplace' (h.1 place hdir)]
    · rw [cleared_cons_of_ne hplace hdir, cleared_cons_of_ne hplace' (h.lookup_ne hdir), ih hrest]

/-- Files are taken away one after another until one leads to a directory. -/
private theorem each_removeFile_run {paths : List Path} {w : Workspace}
    (h : ∀ p ∈ paths, ∃ place, w.files.locate p = .ok place) :
    ∃ r w', each removeFile paths w = (r, w') ∧ (r = .ok .unit ↔ cleared w.files paths = paths) ∧
      TakenAt (fun place => ∃ p ∈ cleared w.files paths, w.files.locate p = .ok place)
        w.files w'.files := by
  induction paths generalizing w with
  | nil => exact ⟨_, w, rfl, by simp [cleared], (TakenAt.refl w.files).congr (by simp [cleared])⟩
  | cons p paths ih =>
    rw [List.forall_mem_cons] at h
    obtain ⟨⟨place, hplace⟩, hrest⟩ := h
    obtain ⟨r, v, hfirst, hblocked, hfree⟩ := removeFile_run hplace
    rw [each_cons]
    by_cases hdir : w.files.lookup place = some .directory
    · obtain ⟨hfault, hsame⟩ := hblocked hdir
      rw [cleared_cons_of_directory hplace hdir]
      cases r with
      | ok u => exact absurd rfl hfault
      | error f =>
        refine ⟨_, v, Work.bind_error hfirst _, by simp, ?_⟩
        rw [hsame]
        exact (TakenAt.refl w.files).congr (by simp)
    · obtain ⟨rfl, htaken⟩ := hfree hdir
      have hsame : SameDirectories w.files v.files :=
        htaken.sameDirectories fun other hother => hother ▸ hdir
      obtain ⟨r, w', hloop, hall, hlater⟩ :=
        ih (w := v) (by simpa [hsame.locate_eq_ok_iff] using hrest)
      simp only [cleared_congr hsame hrest, hsame.locate_eq_ok_iff] at hall hlater
      rw [cleared_cons_of_ne hplace hdir, Work.bind_ok hfirst]
      refine ⟨r, w', hloop, by simpa using hall, (htaken.trans hlater).congr fun other => ?_⟩
      simp [hplace, eq_comm]

private theorem lookup_of_mem_cleared {t : FileTree} {paths : List Path} {p : Path} {place : Place}
    (hp : p ∈ cleared t paths) (hplace : t.locate p = .ok place) :
    t.lookup place ≠ some .directory := by
  intro hdir
  have hfree := List.mem_takeWhile_imp hp
  rw [isDir_eq_true_iff.mpr ⟨place, hplace, hdir⟩] at hfree
  simp [Except.toOption] at hfree

private theorem removeDirectory_run {p : Path} {w : Workspace} {place : Place}
    (hplace : w.files.locate p = .ok place) (hdir : w.files.lookup place = some .directory) :
    TakenAt (fun other => other = place ∧ isSurrounding place = false ∧ p.parts ≠ [] ∧
      w.files.names place = []) w.files (removeDirectory p w).2.files := by
  have hask : Work.pathExists p w = (.ok true, w) := by
    apply Work.ask_ok
    rw [exists_of_locate hplace, hdir]
    rfl
  have hlist : Work.ask (·.list p) w = (.ok (w.files.names place), w) := by
    apply Work.ask_ok
    simp [FileTree.list, hplace, hdir, bind, Except.bind, pure, Except.pure]
  rw [removeDirectory, Work.bind_ok hask, if_pos rfl, Work.bind_ok hlist]
  by_cases hempty : w.files.names place = []
  · rw [hempty, if_pos (List.isEmpty_iff.mpr rfl)]
    by_cases htop : p.parts = []
    · have hstep : w.files.removeDirectory p = .error (.invalid p) := by
        simp [FileTree.removeDirectory, hplace, hdir, htop, bind, Except.bind]
      rw [Work.change_error hstep]
      exact (TakenAt.refl _).congr (by simp [htop])
    · have hstep : w.files.removeDirectory p = .ok (w.files.erase place) := by
        simp [FileTree.removeDirectory, hplace, hdir, htop, hempty, bind, Except.bind, pure,
          Except.pure]
      rw [Work.change_ok hstep]
      by_cases hinner : isSurrounding place = false
      · exact (takenAt_erase hinner).congr (by simp [hinner, htop])
      · -- The places around the tree are not among its entries.
        refine ⟨fun other hother => absurd hother.2.1 hinner, fun other _ => ?_,
          fun ht => ht.erase _⟩
        by_cases hother : other = place
        · rw [hother, lookup, lookup, if_pos (by simpa using hinner),
            if_pos (by simpa using hinner)]
        · exact lookup_erase_of_ne _ hother
  · rw [if_neg (by simpa using hempty)]
    exact (TakenAt.refl _).congr (by simp [hempty])

private theorem orElse_snd {α : Type} (x : Work α) (other : α) (w : Workspace) :
    (Work.orElse x other w).2 = (x w).2 := by
  rcases hx : x w with ⟨r, v⟩
  cases r with
  | ok a => rw [Work.orElse_ok hx]
  | error f => rw [Work.orElse_error hx]

private theorem remove_run {l : FileLayout} {w : Workspace} {place : Place}
    (hl : l.directories = [l.base]) (hfiles : ∀ p ∈ l.files, ∃ place, w.files.locate p = .ok place)
    (hplace : w.files.locate l.base = .ok place) (hdir : w.files.lookup place = some .directory) :
    ∃ t, TakenAt (fun other => ∃ p ∈ cleared w.files l.files, w.files.locate p = .ok other)
        w.files t ∧
      TakenAt (fun other => other = place ∧ cleared w.files l.files = l.files ∧
        isSurrounding place = false ∧ l.base.parts ≠ [] ∧ t.names place = [])
        t (l.remove w).2.files := by
  obtain ⟨r, v, hloop, hall, htaken⟩ := each_removeFile_run hfiles
  have hsame : SameDirectories w.files v.files := by
    refine htaken.sameDirectories fun other hother => ?_
    obtain ⟨p, hp, hlocate⟩ := hother
    exact lookup_of_mem_cleared hp hlocate
  have hremove : (l.remove w).2 = ((each removeFile l.files >>= fun _ =>
      each removeDirectory l.directories.reverse >>= fun _ => (pure true : Work Bool)) w).2 :=
    orElse_snd _ _ _
  refine ⟨v.files, htaken, ?_⟩
  rw [hremove]
  by_cases hdone : cleared w.files l.files = l.files
  · obtain rfl := hall.mpr hdone
    have hlast := removeDirectory_run (hsame.locate_eq_ok_iff.mpr hplace) (hsame.1 place hdir)
    have hend : ((each removeDirectory [l.base] >>= fun _ => (pure true : Work Bool)) v).2 =
        (removeDirectory l.base v).2 := by
      rw [each_cons, bind_assoc]
      rcases hbase : removeDirectory l.base v with ⟨r, v'⟩
      cases r with
      | ok u =>
        rw [Work.bind_ok hbase]
        rfl
      | error f => rw [Work.bind_error hbase]
    rw [Work.bind_ok hloop, hl, List.reverse_singleton, hend]
    exact hlast.congr (by simp [hdone])
  · cases r with
    | ok u => exact absurd (hall.mp rfl) hdone
    | error f =>
      rw [Work.bind_error hloop]
      exact (TakenAt.refl _).congr (by simp [hdone])

/-! Back to the beginning. -/

inductive PlannedFor (source : Path) : FileLayout → Prop where
  | split (count : Int) (strategy : String) : PlannedFor source (split source count strategy)
  | shared : PlannedFor source (shared source)
  | modular (modules : List String) : PlannedFor source (modular source modules)

private theorem PlannedFor.directories_eq {source : Path} {l : FileLayout}
    (h : PlannedFor source l) : l.directories = [l.base] := by
  cases h with
  | split count strategy => rw [FileLayout.split]
  | shared => rw [FileLayout.shared]
  | modular modules => rw [FileLayout.modular]

def ClearedAt (l : FileLayout) (made : FileTree) (place : Place) : Prop :=
  ∃ p ∈ cleared made l.files, made.locate p = .ok place

def FilesRestored (l : FileLayout) (t made : FileTree) : Prop :=
  ∀ p ∈ l.files, ∀ place, made.locate p = .ok place → made.lookup place ≠ some .directory →
    (t.lookup place = none ↔ l.ClearedAt made place)

def NewDirectory (t made : FileTree) (place : Place) : Prop :=
  t.lookup place = none ∧ made.lookup place = some .directory

/-- The directory of a layout is the only new one and goes again, or there is no new one and it
stays: it is not removed because not all files are, because it cannot be, or because something was
in it. -/
def DirectoriesRestored (l : FileLayout) (t made : FileTree) : Prop :=
  (cleared made l.files = l.files ∧
    ∀ place, NewDirectory t made place ↔ made.locate l.base = .ok place) ∨
  ((∀ place, ¬ NewDirectory t made place) ∧ (cleared made l.files = l.files →
    l.base.parts = [] ∨ ∀ place, made.locate l.base = .ok place →
      isSurrounding place = true ∨ t.names place ≠ []))

structure Makes (l : FileLayout) (t made : FileTree) (base : Place) : Prop where
  stays : ∀ place e, t.lookup place = some e → made.lookup place = some e
  new_file : ∀ place c, t.lookup place = none → made.lookup place = some (.file c) →
    ∃ p ∈ l.files, made.locate p = .ok place
  reached : ∀ p ∈ l.files, ∃ place e, made.locate p = .ok place ∧ made.lookup place = some e
  base_located : made.locate l.base = .ok base
  base_directory : made.lookup base = some .directory
  neat : made.Neat

private theorem makes_create {source : Path} {l : FileLayout} (hl : PlannedFor source l)
    {w : Workspace} (ht : w.files.Sound) (h : (l.create w).1 = .ok true) :
    ∃ base, l.Makes w.files (l.create w).2.files base := by
  obtain ⟨v, hdirectories, hfiles⟩ := create_eq_true h
  rw [hl.directories_eq] at hdirectories
  obtain ⟨v', hmade, hend⟩ := each_cons_eq_ok hdirectories
  obtain rfl : v' = v := (Prod.mk.inj hend).2
  obtain ⟨hensured, hisDir⟩ := makeDirectories_eq_ok hmade
  obtain ⟨hreached, hadded⟩ := each_touch_eq_ok hfiles
  have hfurnished : Furnished w.files v'.files := hensured ▸ furnished_ensured l.base w.files
  obtain ⟨base, hbase, hdir⟩ := isDir_eq_true_iff.mp hisDir
  have hsame := hadded.sameDirectories
  refine ⟨base, ?_, ?_, ?_, hsame.locate_eq_ok_iff.mpr hbase, hsame.1 base hdir, ?_⟩
  · intro place e hentry
    apply hadded.kept
    cases e with
    | directory => exact hfurnished.directories_stay place hentry
    | file c =>
      rw [← fileAt_eq_some_iff, hfurnished.same_files, fileAt_eq_some_iff]
      exact hentry
  · intro place c hnone hfile
    by_contra hother
    cases hbefore : v'.files.lookup place with
    | none =>
      rw [hadded.missing place hbefore hother] at hfile
      cases hfile
    | some e =>
      have hold : v'.files.fileAt place = some c := by
        rw [fileAt_eq_some_iff, hbefore, ← hfile, hadded.kept place e hbefore]
      rw [hfurnished.same_files, fileAt_eq_some_iff, hnone] at hold
      cases hold
  · intro p hp
    obtain ⟨place, hplace⟩ := hreached p hp
    cases hbefore : v'.files.lookup place with
    | some e => exact ⟨place, e, hplace, hadded.kept place e hbefore⟩
    | none =>
      obtain ⟨c, hfile⟩ := hadded.added place hbefore ⟨p, hp, hplace⟩
      exact ⟨place, _, hplace, hfile⟩
  · apply hadded.neat
    rw [hensured]
    exact neat_ensured ht.neat _

def BaseGoes (l : FileLayout) (made left : FileTree) (base : Place) : Prop :=
  cleared made l.files = l.files ∧ isSurrounding base = false ∧ l.base.parts ≠ [] ∧
    left.names base = []

/-- What taking a layout away does: some files are left, and then perhaps the directory goes. -/
structure Unmakes (l : FileLayout) (made left after : FileTree) (base : Place) : Prop where
  files : TakenAt (l.ClearedAt made) made left
  directory : TakenAt (fun other => other = base ∧ l.BaseGoes made left base) left after

section Restored

variable {l : FileLayout} {t made left after : FileTree} {base place : Place}

private theorem Makes.file_of_clearedAt (h : l.Makes t made base)
    (hplace : l.ClearedAt made place) : ∃ c, made.lookup place = some (.file c) := by
  obtain ⟨p, hp, hlocate⟩ := hplace
  obtain ⟨place', e, hlocate', hentry⟩ := h.reached p ((List.takeWhile_subset _) hp)
  obtain rfl : place' = place := Except.ok.inj (hlocate'.symm.trans hlocate)
  cases e with
  | file c => exact ⟨c, hentry⟩
  | directory => exact absurd hentry (lookup_of_mem_cleared hp hlocate)

private theorem Unmakes.lookup_cleared (h : l.Unmakes made left after base)
    (hplace : l.ClearedAt made place) : after.lookup place = none := by
  by_cases hgoes : place = base ∧ l.BaseGoes made left base
  · exact h.directory.gone place hgoes
  · rw [h.directory.kept place hgoes, h.files.gone place hplace]

private theorem Unmakes.lookup_kept (h : l.Unmakes made left after base)
    (hplace : ¬ l.ClearedAt made place) (hgoes : ¬ (place = base ∧ l.BaseGoes made left base)) :
    after.lookup place = made.lookup place := by
  rw [h.directory.kept place hgoes, h.files.kept place hplace]

private theorem Unmakes.lookup_file (h : l.Unmakes made left after base)
    (hmakes : l.Makes t made base) (hfile : made.lookup place ≠ some .directory)
    (hplace : ¬ l.ClearedAt made place) : after.lookup place = made.lookup place := by
  apply h.lookup_kept hplace
  rintro ⟨rfl, -⟩
  exact hfile hmakes.base_directory

private theorem Unmakes.lookup_directory (h : l.Unmakes made left after base)
    (hmakes : l.Makes t made base) (hdir : made.lookup place = some .directory)
    (hgoes : ¬ (place = base ∧ l.BaseGoes made left base)) :
    after.lookup place = some .directory := by
  rw [h.lookup_kept ?_ hgoes, hdir]
  intro hcleared
  obtain ⟨c, hfile⟩ := hmakes.file_of_clearedAt hcleared
  rw [hdir] at hfile
  cases hfile

variable (hmakes : l.Makes t made base) (hunmakes : l.Unmakes made left after base)

include hmakes hunmakes

private theorem filesRestored_of_eq (heq : after = t) : l.FilesRestored t made := by
  intro p hp place hplace hfile
  constructor
  · intro hnone
    by_contra hcleared
    obtain ⟨place', e, hplace', hentry⟩ := hmakes.reached p hp
    obtain rfl : place' = place := Except.ok.inj (hplace'.symm.trans hplace)
    rw [← heq, hunmakes.lookup_file hmakes hfile hcleared, hentry] at hnone
    cases hnone
  · intro hcleared
    rw [← heq, hunmakes.lookup_cleared hcleared]

private theorem directoriesRestored_of_eq (heq : after = t) : l.DirectoriesRestored t made := by
  -- A new directory that does not go is there in the end.
  have hnew : ∀ place, NewDirectory t made place → place = base ∧ l.BaseGoes made left base := by
    rintro place ⟨hnone, hdir⟩
    by_contra hgoes
    rw [← heq, hunmakes.lookup_directory hmakes hdir hgoes] at hnone
    cases hnone
  by_cases hgoes : l.BaseGoes made left base
  · refine .inl ⟨hgoes.1, fun place => ⟨fun hplace => ?_, fun hplace => ?_⟩⟩
    · rw [(hnew place hplace).1, hmakes.base_located]
    · obtain rfl : base = place := Except.ok.inj (hmakes.base_located.symm.trans hplace)
      refine ⟨?_, hmakes.base_directory⟩
      rw [← heq, hunmakes.directory.gone _ ⟨rfl, hgoes⟩]
  · refine .inr ⟨fun place hplace => hgoes (hnew place hplace).2, fun hall => ?_⟩
    by_contra hstays
    simp only [not_or, not_forall, ne_eq, not_not, Bool.not_eq_true] at hstays
    obtain ⟨hparts, place, hplace, hinner, hempty⟩ := hstays
    obtain rfl : base = place := Except.ok.inj (hmakes.base_located.symm.trans hplace)
    have hleft := hunmakes.files.neat hmakes.neat
    have hsame : left = t := by
      rw [← heq]
      refine hleft.ext (hunmakes.directory.neat hleft) fun other => ?_
      rw [hunmakes.directory.kept other fun hother => hgoes hother.2]
    exact hgoes ⟨hall, hinner, hparts, hsame ▸ hempty⟩

omit hunmakes in
private theorem not_clearedAt_of_restored (hfiles : l.FilesRestored t made)
    (h : t.lookup place ≠ none) : ¬ l.ClearedAt made place := by
  intro hcleared
  obtain ⟨c, hfile⟩ := hmakes.file_of_clearedAt hcleared
  obtain ⟨p, hp, hplace⟩ := hcleared
  have hrestored := hfiles p (List.takeWhile_subset _ hp) place hplace (by simp [hfile])
  exact h (hrestored.mpr ⟨p, hp, hplace⟩)

private theorem names_left_ne_nil (ht : t.Sound) (hfiles : l.FilesRestored t made)
    (h : t.names base ≠ []) : left.names base ≠ [] := by
  obtain ⟨name, hname⟩ := List.exists_mem_of_ne_nil _ h
  obtain ⟨e, hentry⟩ := mem_names.mp hname
  obtain ⟨hinner, hlookup⟩ := ht.mem_entries_iff.mp hentry
  have hkept : ¬ l.ClearedAt made (base ++ [name]) :=
    not_clearedAt_of_restored hmakes hfiles (by simp [hlookup])
  have hleft : left.lookup (base ++ [name]) = some e := by
    rw [hunmakes.files.kept _ hkept, hmakes.stays _ e hlookup]
  exact List.ne_nil_of_mem ((mem_names_iff hinner).mpr (by simp [hleft]))

private theorem names_left_eq_nil (ht : t.Sound) (hfiles : l.FilesRestored t made)
    (honly : ∀ place, NewDirectory t made place ↔ made.locate l.base = .ok place) :
    left.names base = [] := by
  rw [List.eq_nil_iff_forall_not_mem]
  intro name hname
  obtain ⟨e, hentry⟩ := mem_names.mp hname
  have hneat := hunmakes.files.neat hmakes.neat
  obtain ⟨hinner, hlookup⟩ := hneat.mem_entries_iff.mp hentry
  have hkept : ¬ l.ClearedAt made (base ++ [name]) := fun hcleared => by
    simp [hunmakes.files.gone _ hcleared] at hlookup
  rw [hunmakes.files.kept _ hkept] at hlookup
  have hnone : t.lookup (base ++ [name]) = none := by
    by_contra hsome
    obtain ⟨e', he'⟩ := Option.ne_none_iff_exists'.mp hsome
    have hdir := (ht.grown_child (ht.mem_entries_iff.mpr ⟨hinner, he'⟩)).2
    simp [((honly base).mpr hmakes.base_located).1] at hdir
  cases e with
  | file c =>
    obtain ⟨p, hp, hplace⟩ := hmakes.new_file _ c hnone hlookup
    exact hkept ((hfiles p hp _ hplace (by simp [hlookup])).mp hnone)
  | directory =>
    have hbase := (honly _).mp ⟨hnone, hlookup⟩
    rw [hmakes.base_located, Except.ok.injEq] at hbase
    simp at hbase

private theorem not_baseGoes_of_restored (ht : t.Sound) (hfiles : l.FilesRestored t made)
    (hdirectories : l.DirectoriesRestored t made) (hdir : t.lookup base = some .directory) :
    ¬ l.BaseGoes made left base := by
  rintro ⟨hall, hinner, hparts, hempty⟩
  rcases hdirectories with ⟨-, honly⟩ | ⟨-, hstays⟩
  · simp [((honly base).mpr hmakes.base_located).1] at hdir
  · rcases (hstays hall).resolve_left hparts base hmakes.base_located with hsurrounding | hnames
    · simp [hinner] at hsurrounding
    · exact names_left_ne_nil hmakes hunmakes ht hfiles hnames hempty

private theorem baseGoes_of_restored (ht : t.Sound) (hfiles : l.FilesRestored t made)
    (hdirectories : l.DirectoriesRestored t made) (hnew : NewDirectory t made place) :
    place = base ∧ l.BaseGoes made left base := by
  rcases hdirectories with ⟨hall, honly⟩ | ⟨hnone, -⟩
  · have hplace := (honly place).mp hnew
    obtain rfl : base = place := Except.ok.inj (hmakes.base_located.symm.trans hplace)
    have hinner : isSurrounding base = false := not_surrounding (t := t) (by simp [hnew.1])
    have hparts : l.base.parts ≠ [] := by
      intro hnil
      rw [isSurrounding_of_locate hnil hplace] at hinner
      cases hinner
    exact ⟨rfl, hall, hinner, hparts, names_left_eq_nil hmakes hunmakes ht hfiles honly⟩
  · exact absurd hnew (hnone place)

private theorem lookup_of_restored (ht : t.Sound) (hfiles : l.FilesRestored t made)
    (hdirectories : l.DirectoriesRestored t made) (place : Place) :
    after.lookup place = t.lookup place := by
  cases hbefore : t.lookup place with
  | some e =>
    have hmade := hmakes.stays place e hbefore
    cases e with
    | file c =>
      have hcleared : ¬ l.ClearedAt made place :=
        not_clearedAt_of_restored hmakes hfiles (by simp [hbefore])
      rw [hunmakes.lookup_file hmakes (by simp [hmade]) hcleared, hmade]
    | directory =>
      apply hunmakes.lookup_directory hmakes hmade
      rintro ⟨rfl, hgoes⟩
      exact not_baseGoes_of_restored hmakes hunmakes ht hfiles hdirectories hbefore hgoes
  | none =>
    cases hmade : made.lookup place with
    | none =>
      rw [hunmakes.lookup_file hmakes (by simp [hmade]), hmade]
      intro hcleared
      obtain ⟨c, hfile⟩ := hmakes.file_of_clearedAt hcleared
      simp [hmade] at hfile
    | some e =>
      cases e with
      | file c =>
        obtain ⟨p, hp, hplace⟩ := hmakes.new_file place c hbefore hmade
        exact hunmakes.lookup_cleared ((hfiles p hp place hplace (by simp [hmade])).mp hbefore)
      | directory =>
        exact hunmakes.directory.gone place
          (baseGoes_of_restored hmakes hunmakes ht hfiles hdirectories ⟨hbefore, hmade⟩)

end Restored

/-- Making a layout and taking it away again leaves the files as they were just where the files that
are taken away are the new ones and the same is true of the directories. A file that was there is
lost just where it stands at the place of a file that is taken away. -/
theorem remove_create_eq_iff {source : Path} {l : FileLayout} (hl : PlannedFor source l)
    {w : Workspace} (ht : w.files.Sound) (h : (l.create w).1 = .ok true) :
    ((l.remove (l.create w).2).2.files = w.files ↔
      l.FilesRestored w.files (l.create w).2.files ∧
        l.DirectoriesRestored w.files (l.create w).2.files) ∧
    ∀ place c, w.files.lookup place = some (.file c) →
      ((l.remove (l.create w).2).2.files.lookup place = some (.file c) ↔
        ¬ l.ClearedAt (l.create w).2.files place) := by
  obtain ⟨base, hmakes⟩ := makes_create hl ht h
  have hlocated : ∀ p ∈ l.files, ∃ place, (l.create w).2.files.locate p = .ok place := by
    intro p hp
    obtain ⟨place, e, hplace, -⟩ := hmakes.reached p hp
    exact ⟨place, hplace⟩
  obtain ⟨left, hfiles, hdirectory⟩ := remove_run hl.directories_eq hlocated hmakes.base_located
    hmakes.base_directory
  have hunmakes : l.Unmakes (l.create w).2.files left (l.remove (l.create w).2).2.files base :=
    ⟨hfiles, hdirectory⟩
  refine ⟨⟨fun heq => ⟨filesRestored_of_eq hmakes hunmakes heq,
    directoriesRestored_of_eq hmakes hunmakes heq⟩, fun hrestored => ?_⟩, ?_⟩
  · have hneat := hunmakes.directory.neat (hunmakes.files.neat hmakes.neat)
    exact hneat.ext ht.neat (lookup_of_restored hmakes hunmakes ht hrestored.1 hrestored.2)
  · intro place c hfile
    have hmade := hmakes.stays place _ hfile
    constructor
    · intro hkept hcleared
      rw [hunmakes.lookup_cleared hcleared] at hkept
      cases hkept
    · intro hcleared
      rw [hunmakes.lookup_file hmakes (by simp [hmade]) hcleared, hmade]

def sharing : Workspace :=
  { files :=
      { entries :=
          [(["src"], .directory), (["src", "a.spec.ts"], .file (.bytes "it".toUTF8)),
            (["src", "test-utils.ts"], .file (.bytes "keep".toUTF8))] },
    now := { micros := 0 } }

private theorem sound_sharing : sharing.files.Sound := by
  have hgrown : [Edit.makeDirectory { parts := ["src"] },
      .write { parts := ["src", "a.spec.ts"] } (.bytes "it".toUTF8),
      .write { parts := ["src", "test-utils.ts"] } (.bytes "keep".toUTF8)].foldlM edited {} =
        .ok sharing.files := rfl
  exact sound_empty.editedAll (by decide) hgrown

def utilities : FileLayout :=
  { base := { parts := ["src"] }
    files := [{ parts := ["src", "test-utils.ts"] }, { parts := ["src", "test-fixtures.ts"] },
      { parts := ["src", "test-mocks.ts"] }]
    directories := [{ parts := ["src"] }]
    description := "Extract shared utilities from a.spec.ts" }

theorem remove_create_eq_iff_sharing :
    PlannedFor { parts := ["src", "a.spec.ts"] } utilities ∧ sharing.files.Sound ∧
      (utilities.create sharing).1 = .ok true ∧
      sharing.files.lookup ["src", "test-utils.ts"] = some (.file (.bytes "keep".toUTF8)) ∧
      (utilities.remove (utilities.create sharing).2).2.files.lookup ["src", "test-utils.ts"] ≠
        some (.file (.bytes "keep".toUTF8)) := by
  have hplanned : PlannedFor { parts := ["src", "a.spec.ts"] } utilities := by
    have hshared : utilities = shared { parts := ["src", "a.spec.ts"] } := by decide
    rw [hshared]
    exact .shared
  have hcreate : (utilities.create sharing).1 = .ok true := rfl
  refine ⟨hplanned, sound_sharing, hcreate, rfl, fun hkept => ?_⟩
  have hiff :=
    (remove_create_eq_iff hplanned sound_sharing hcreate).2 ["src", "test-utils.ts"] _ rfl
  have hcleared : cleared (utilities.create sharing).2.files utilities.files = utilities.files :=
    rfl
  apply hiff.mp hkept
  rw [ClearedAt, hcleared]
  exact ⟨_, List.mem_cons_self, rfl⟩

end SuiteTidy.FileLayout
