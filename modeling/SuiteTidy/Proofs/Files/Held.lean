import SuiteTidy.Proofs.Files.Safe

/-!
What the files of a tree hold. Making directories changes no file. Writing files one after another
leaves at every place what was written there last, and where nothing was written, what was there
before.
-/

set_option autoImplicit false
set_option relaxedAutoImplicit false

namespace SuiteTidy.FileTree

def fileAt (t : FileTree) (place : Place) : Option Content :=
  match t.lookup place with
  | some (.file c) => some c
  | _ => none

theorem fileAt_eq_some_iff {t : FileTree} {place : Place} {c : Content} :
    t.fileAt place = some c ↔ t.lookup place = some (.file c) := by
  unfold fileAt
  split <;> simp_all

theorem fileAt_put_file {t : FileTree} {place : Place} (hfree : t.lookup place ≠ some .directory)
    (c : Content) (other : Place) :
    (t.put place (.file c)).fileAt other = if other = place then some c else t.fileAt other := by
  split_ifs with heq
  · rw [heq, fileAt, lookup_put_self (not_surrounding hfree)]
  · rw [fileAt, lookup_put_of_ne t heq, fileAt]

private theorem fileAt_put_directory {t : FileTree} {place : Place} (hnone : t.lookup place = none)
    (other : Place) : (t.put place .directory).fileAt other = t.fileAt other := by
  by_cases heq : other = place
  · rw [heq, fileAt, lookup_put_self (not_surrounding (t := t) (by simp [hnone])), fileAt, hnone]
  · rw [fileAt, lookup_put_of_ne t heq, fileAt]

def HasContent (t : FileTree) (c : Content) : Prop := ∃ place, t.fileAt place = some c

/-! Directories. -/

/-- A tree with the same files as another, and all its directories, and perhaps more of them. -/
structure Furnished (t t' : FileTree) : Prop where
  same_files : ∀ place, t'.fileAt place = t.fileAt place
  directories_stay : KeepsDirectories t t'

theorem Furnished.refl (t : FileTree) : Furnished t t := ⟨fun _ => rfl, fun _ h => h⟩

theorem Furnished.trans {t t' t'' : FileTree} (h : Furnished t t') (h' : Furnished t' t'') :
    Furnished t t'' :=
  ⟨fun place => (h'.same_files place).trans (h.same_files place),
    h.directories_stay.trans h'.directories_stay⟩

theorem Furnished.hasContent_iff {t t' : FileTree} (h : Furnished t t') (c : Content) :
    t'.HasContent c ↔ t.HasContent c :=
  exists_congr fun place => by rw [h.same_files]

private theorem furnished_attempted (here : Path) (t : FileTree) :
    Furnished t (attempted here t).2 := by
  rw [attempted]
  cases hmade : t.makeDirectory here with
  | error e => exact Furnished.refl t
  | ok t' =>
    obtain ⟨place, -, hnone, rfl⟩ := makeDirectory_eq_ok hmade
    refine ⟨fileAt_put_directory hnone, fun other hdir => ?_⟩
    have hne : other ≠ place := by
      rintro rfl
      simp [hnone] at hdir
    exact (lookup_put_of_ne t hne _).trans hdir

theorem furnished_ensured (p : Path) (t : FileTree) : Furnished t (t.ensured p) :=
  rel_makeDirectoriesTo (R := Furnished) Furnished.trans (fun _ t => furnished_attempted _ t) _ t

/-! Writings. -/

def lastWritten (ws : List (Place × Content)) (place : Place) : Option Content :=
  ws.reverse.lookup place

/-- The files after some writings: what was written last, or else what was there before. -/
def HoldsAfter (ws : List (Place × Content)) (t t' : FileTree) : Prop :=
  ∀ place, t'.fileAt place = (lastWritten ws place).or (t.fileAt place)

theorem HoldsAfter.append {ws ws' : List (Place × Content)} {t t' t'' : FileTree}
    (h : HoldsAfter ws t t') (h' : HoldsAfter ws' t' t'') : HoldsAfter (ws ++ ws') t t'' := by
  intro place
  rw [h' place, h place, lastWritten, lastWritten, lastWritten, List.reverse_append,
    List.lookup_append, Option.or_assoc]

theorem Furnished.holdsAfter {t t' : FileTree} (h : Furnished t t') : HoldsAfter [] t t' :=
  h.same_files

private theorem holdsAfter_put {t : FileTree} {place : Place}
    (hfree : t.lookup place ≠ some .directory) (c : Content) :
    HoldsAfter [(place, c)] t (t.put place (.file c)) := by
  intro other
  rw [fileAt_put_file hfree]
  split_ifs with heq
  · simp [lastWritten, heq]
  · simp [lastWritten, List.lookup_cons, beq_false_of_ne heq]

theorem HoldsAfter.exists_fileAt_iff {ws : List (Place × Content)} {t t' : FileTree}
    (h : HoldsAfter ws t t') (c : Content) :
    (∃ place, t'.fileAt place = some c) ↔
      (∃ place, lastWritten ws place = none ∧ t.fileAt place = some c) ∨
        ∃ place, lastWritten ws place = some c := by
  rw [← exists_or]
  refine exists_congr fun place => ?_
  rw [h place, Option.or_eq_some_iff, or_comm]

end SuiteTidy.FileTree

namespace SuiteTidy.SafeFile

open SuiteTidy.FileTree

/-- What an attempt to write a text to a file writes, and where. -/
def writing (target : Option FileRef) (content : String) (t : FileTree) :
    List (Place × Content) :=
  match pathOf target with
  | .error _ => []
  | .ok p =>
    match (written target content t).1, (t.ensured p.parent).locate p with
    | true, .ok place => [(place, .bytes content.toUTF8)]
    | _, _ => []

theorem holdsAfter_written (target : Option FileRef) (content : String) (t : FileTree) :
    HoldsAfter (writing target content t) t (written target content t).2 := by
  rw [writing, written]
  cases pathOf target with
  | error f => exact (Furnished.refl t).holdsAfter
  | ok p =>
    have hensured := (furnished_ensured p.parent t).holdsAfter
    simp only
    cases (t.ensured p.parent).exists_ p with
    | error e => exact hensured
    | ok b =>
      simp only
      cases hwritten : (t.ensured p.parent).writeText p content with
      | error e => exact hensured
      | ok t' =>
        obtain ⟨place, hplace, hfree, rfl⟩ := writeContent_eq_ok hwritten
        simp only [hplace]
        exact hensured.append (holdsAfter_put hfree _)

end SuiteTidy.SafeFile
