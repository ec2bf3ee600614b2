import SuiteTidy.Proofs.Files.Held
import SuiteTidy.Proofs.Order.Stable
import SuiteTidy.Scan

/-!
Which files a search finds. The order in which they are found depends on their places alone, so that
directories that are made before a search do not change what it finds.
-/

set_option autoImplicit false
set_option relaxedAutoImplicit false

namespace SuiteTidy

namespace FileTree

def isFileEntry (x : Place × Entry) : Bool := !x.2.isDirectory

end FileTree

namespace Scan

open SuiteTidy.FileTree

theorem filesBelow_of_isDir {t : FileTree} {root : Path} {place : Place}
    (hplace : t.locate root = .ok place) (hdir : t.lookup place = some .directory) :
    filesBelow t root = .ok (((t.below place).filter isFileEntry).map fun x =>
      { root with parts := root.parts ++ x.1 }) := by
  have hroot : t.isDir root = .ok true := isDir_eq_true_iff.mpr ⟨place, hplace, hdir⟩
  simp only [filesBelow, hroot, hplace, bind, Except.bind, pure, Except.pure, if_true]
  rw [← List.filterMap_eq_map, List.filterMap_filter]
  refine congrArg Except.ok (List.filterMap_congr fun x _ => ?_)
  obtain ⟨names, e⟩ := x
  cases e <;> rfl

theorem testFiles_of_below {t : FileTree} {root : Path} {place : Place}
    (hplace : t.locate root = .ok place) (hdir : t.lookup place = some .directory)
    (inner : List (Place × Content))
    (hbelow : t.below place = inner.map fun x => (x.1, .file x.2)) :
    testFiles t root =
      .ok ((inner.map fun x => { root with parts := root.parts ++ x.1 }).filter isWanted) := by
  have hfiles : (inner.map fun x => (x.1, Entry.file x.2)).filter isFileEntry =
      inner.map fun x => (x.1, Entry.file x.2) := by
    rw [List.filter_eq_self, List.forall_mem_map]
    exact fun _ _ => rfl
  rw [testFiles, filesBelow_of_isDir hplace hdir, hbelow, hfiles, List.map_map]
  rfl

end Scan
end SuiteTidy
