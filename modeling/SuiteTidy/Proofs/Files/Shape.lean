import SuiteTidy.Files.Glob
import SuiteTidy.Proofs.Files.Sound

/-!
The shape of a tree: its places, and which of them are directories. Where a path leads and what a
search finds depends on the shape alone. Writing to a file that is there keeps the shape, and only
the paths to that file read something else afterwards.
-/

set_option autoImplicit false
set_option relaxedAutoImplicit false

namespace SuiteTidy

def Entry.bare : Entry → Entry
  | file _ => file (.bytes .empty)
  | directory => directory

@[simp]
theorem Entry.isDirectory_bare (e : Entry) : e.bare.isDirectory = e.isDirectory := by
  cases e <;> rfl

namespace FileTree

def bare (t : FileTree) : FileTree := { entries := t.entries.map fun x => (x.1, x.2.bare) }

def SameShape (t t' : FileTree) : Prop := t.bare = t'.bare

variable {t t' : FileTree}

/-! What is at the end of a path. -/

private theorem findEntry_bare (place : Place) (entries : List (Place × Entry)) :
    findEntry place (entries.map fun x => (x.1, x.2.bare)) =
      (findEntry place entries).map Entry.bare := by
  induction entries with
  | nil => rfl
  | cons x entries ih =>
    rw [List.map_cons, findEntry, findEntry, ih]
    split_ifs <;> rfl

private theorem lookup_bare (t : FileTree) (place : Place) :
    t.bare.lookup place = (t.lookup place).map Entry.bare := by
  rw [lookup, lookup]
  split_ifs
  · rfl
  · exact findEntry_bare place t.entries

private theorem follow_bare (t : FileTree) (p : Path) (here : Place) (names : List String) :
    t.bare.follow p here names = t.follow p here names := by
  induction names generalizing here with
  | nil => rfl
  | cons name rest ih =>
    rw [follow, follow, lookup_bare]
    cases t.lookup here with
    | none => rfl
    | some e =>
      cases e with
      | file c => rfl
      | directory => simp only [Option.map_some, Entry.bare, ih]

private theorem locate_bare (t : FileTree) (p : Path) : t.bare.locate p = t.locate p := by
  rw [locate, locate, follow_bare]

private theorem entry_bare (t : FileTree) (p : Path) :
    t.bare.entry p = (t.entry p).map Entry.bare := by
  simp only [entry, locate_bare, lookup_bare, bind, Except.bind]
  cases t.locate p with
  | error e => rfl
  | ok place =>
    cases hentry : t.lookup place with
    | none => simp [hentry, Except.map]
    | some e => simp [hentry, Except.map, pure, Except.pure]

private theorem status_bare (t : FileTree) (p : Path) :
    t.bare.status p = (t.status p).map (·.map Entry.bare) := by
  rw [status, status, entry_bare]
  cases t.entry p with
  | error e => cases e <;> rfl
  | ok e => rfl

private theorem exists_bare (t : FileTree) (p : Path) : t.bare.exists_ p = t.exists_ p := by
  rw [exists_, exists_, status_bare]
  rcases t.status p with e | e | e <;> rfl

private theorem isDir_bare (t : FileTree) (p : Path) : t.bare.isDir p = t.isDir p := by
  rw [isDir, isDir, status_bare]
  rcases t.status p with e | e | e
  · rfl
  · rfl
  · cases e <;> rfl

private theorem list_bare (t : FileTree) (p : Path) : t.bare.list p = t.list p := by
  have hnames : ∀ place, t.bare.names place = t.names place := fun place => by
    rw [names, bare, List.filterMap_map]
    rfl
  simp only [list, locate_bare, lookup_bare, hnames, bind, Except.bind]
  cases t.locate p with
  | error e => rfl
  | ok place =>
    cases hentry : t.lookup place with
    | none => simp [hentry]
    | some e => cases e <;> simp [hentry, Entry.bare]

/-! What a search finds. -/

private theorem directories_bare (t : FileTree) (p : Path) :
    Glob.directories t.bare p = Glob.directories t p := by
  simp only [Glob.directories, locate_bare]
  simp only [bare, List.filterMap_map, Function.comp_def, Entry.isDirectory_bare]

private theorem select_bare (t : FileTree) (steps : List Glob.Step) (p : Path) :
    Glob.select t.bare steps p = Glob.select t steps p := by
  induction steps generalizing p with
  | nil => rfl
  | cons step rest ih =>
    have hrest : Glob.select t.bare rest = Glob.select t rest := funext ih
    cases step with
    | stop => rfl
    | name s => simp only [Glob.select, exists_bare, isDir_bare, hrest]
    | wildcard pattern =>
      have hdir : t.bare.isDir = t.isDir := funext t.isDir_bare
      simp only [Glob.select, Glob.namesIn, list_bare, hdir, hrest]
    | anyDepth => simp only [Glob.select, directories_bare, hrest]

theorem SameShape.findBelow (h : SameShape t t') (root : Path) (steps : List Glob.Step) :
    Glob.findBelow t root steps = Glob.findBelow t' root steps := by
  have hbare : ∀ t : FileTree, Glob.findBelow t.bare root steps = Glob.findBelow t root steps :=
    fun t => by rw [Glob.findBelow, Glob.findBelow, isDir_bare, select_bare]
  rw [← hbare t, h, hbare t']

theorem SameShape.locate (h : SameShape t t') (p : Path) : t.locate p = t'.locate p := by
  rw [← t.locate_bare, h, locate_bare]

theorem SameShape.ordered (h : SameShape t t') (ht : t.Ordered) : t'.Ordered := by
  have hbare : ∀ t : FileTree, t.bare.Ordered ↔ t.Ordered := fun t => List.pairwise_map
  rw [← hbare, ← h, hbare]
  exact ht

/-! Writing to a file. -/

variable {p : Path} {place : Place} {old c : Content}

private theorem map_bare_insertEntry (c : Content) {entries : List (Place × Entry)}
    (hordered : entries.Pairwise fun a b => placeBefore a.1 b.1 = true)
    (hold : findEntry place entries = some (.file old)) :
    (insertEntry place (.file c) entries).map (fun x => (x.1, x.2.bare)) =
      entries.map fun x => (x.1, x.2.bare) := by
  induction entries with
  | nil => cases hold
  | cons first rest ih =>
    obtain ⟨k, e⟩ := first
    obtain ⟨hfirst, hrest⟩ := List.pairwise_cons.mp hordered
    rw [findEntry] at hold
    rw [insertEntry]
    split_ifs at hold ⊢ with hk hbefore
    · obtain rfl := Option.some.inj hold
      rw [List.map_cons, List.map_cons, hk]
      rfl
    · -- The file stands further on, where no place comes before the first one.
      have hmem : (place, Entry.file old) ∈ rest := (mem_entries_iff (t := ⟨rest⟩) hrest).mpr hold
      have hloop := placeBefore_trans hbefore (hfirst _ hmem)
      rw [placeBefore_irrefl] at hloop
      cases hloop
    · rw [List.map_cons, List.map_cons, ih hrest hold]

theorem sameShape_put (ht : t.Ordered) (hold : t.lookup place = some (.file old)) (c : Content) :
    SameShape t (t.put place (.file c)) := by
  have hinner : isSurrounding place = false := not_surrounding (t := t) (by simp [hold])
  rw [lookup, hinner, if_neg Bool.false_ne_true] at hold
  exact congrArg FileTree.mk (map_bare_insertEntry c ht hold).symm

theorem readContent_put_of_ne {e : Entry} (hshape : t.SameShape (t.put place e))
    (h : t.locate p ≠ .ok place) : (t.put place e).readContent p = t.readContent p := by
  simp only [readContent, entry, ← hshape.locate p, bind, Except.bind]
  cases hplace : t.locate p with
  | error f => rfl
  | ok other =>
    have hne : other ≠ place := fun heq => h (by rw [hplace, heq])
    simp only [lookup_put_of_ne t hne]

theorem readContent_put_self (hshape : t.SameShape (t.put place (.file c)))
    (h : t.locate p = .ok place) (hold : t.lookup place = some (.file old)) :
    (t.put place (.file c)).readContent p = .ok c := by
  have hinner : isSurrounding place = false := not_surrounding (t := t) (by simp [hold])
  exact readContent_eq_ok_iff.mpr ⟨place, by rw [← hshape.locate, h], lookup_put_self hinner _⟩

end FileTree
end SuiteTidy
