import SuiteTidy.Proofs.Files.Tree

/-!
The files of one directory. Entries are kept in the order of their places, so that a directory lists
each of its names once, and it lists exactly the names under which something is found. A file in a
directory that is there can be reached, written and removed by its name, if the name can stand in a
path at all.
-/

set_option autoImplicit false
set_option relaxedAutoImplicit false

namespace SuiteTidy

theorem Path.below_eq {p : Path} {name : String} (hslash : '/' ∉ name.toList) (hempty : name ≠ "")
    (hdot : name ≠ ".") : p.below name = { p with parts := p.parts ++ [name] } := by
  have hhead : name.toList.head? ≠ some '/' := fun h => hslash (List.mem_of_mem_head? h)
  have hpieces : name.toList.splitOn '/' = [name.toList] := by
    apply List.splitOnP_eq_singleton
    intro c hc
    simpa using fun h : c = '/' => hslash (h ▸ hc)
  simp [below, join, ofString, hpieces, hhead, hempty, hdot]

namespace FileTree

structure FileName (name : String) : Prop where
  slash : '/' ∉ name.toList
  null : '\x00' ∉ name.toList
  nonempty : name ≠ ""
  dot : name ≠ "."
  dots : name ≠ ".."
  short : name.utf8ByteSize ≤ nameLimit

instance (name : String) : Decidable (FileName name) :=
  decidable_of_iff
    ('/' ∉ name.toList ∧ '\x00' ∉ name.toList ∧ name ≠ "" ∧ name ≠ "." ∧ name ≠ ".." ∧
      name.utf8ByteSize ≤ nameLimit)
    ⟨fun h => ⟨h.1, h.2.1, h.2.2.1, h.2.2.2.1, h.2.2.2.2.1, h.2.2.2.2.2⟩,
      fun h => ⟨h.slash, h.null, h.nonempty, h.dot, h.dots, h.short⟩⟩

theorem FileName.below_eq {name : String} (h : FileName name) (folder : Path) :
    folder.below name = { folder with parts := folder.parts ++ [name] } :=
  Path.below_eq h.slash h.nonempty h.dot

structure OneName (name : String) : Prop where
  slash : '/' ∉ name.toList
  null : '\x00' ∉ name.toList
  nonempty : name ≠ ""
  dot : name ≠ "."
  dots : name ≠ ".."

theorem OneName.fileName {name : String} (h : OneName name)
    (hshort : name.utf8ByteSize ≤ nameLimit) : FileName name :=
  { slash := h.slash, null := h.null, nonempty := h.nonempty, dot := h.dot, dots := h.dots,
    short := hshort }

theorem OneName.locate_below {t : FileTree} {folder : Path} {name : String} (h : OneName name)
    {place : Place} (hplace : t.locate folder = .ok place)
    (hdir : t.lookup place = some .directory) :
    t.locate (folder.below name) =
      if nameLimit < name.utf8ByteSize then .error (.nameTooLong (folder.below name))
      else .ok (place ++ [name]) := by
  rw [Path.below_eq h.slash h.nonempty h.dot, locate_child hplace hdir h.dots, if_neg h.null]

def Ordered (t : FileTree) : Prop :=
  t.entries.Pairwise fun a b => placeBefore a.1 b.1 = true

theorem mem_insertEntry {place : Place} {e : Entry} {entries : List (Place × Entry)}
    {x : Place × Entry} (h : x ∈ insertEntry place e entries) : x = (place, e) ∨ x ∈ entries := by
  induction entries with
  | nil => simpa [insertEntry] using h
  | cons first rest ih =>
    obtain ⟨k, old⟩ := first
    rw [insertEntry] at h
    split_ifs at h with hk hbefore
    · rcases List.mem_cons.mp h with hx | hx
      · exact .inl hx
      · exact .inr (List.mem_cons_of_mem _ hx)
    · exact List.mem_cons.mp h
    · rcases List.mem_cons.mp h with hx | hx
      · exact .inr (hx ▸ List.mem_cons_self)
      · exact (ih hx).imp_right (List.mem_cons_of_mem _)

private theorem pairwise_insertEntry (place : Place) (e : Entry) {entries : List (Place × Entry)}
    (h : entries.Pairwise fun a b => placeBefore a.1 b.1 = true) :
    (insertEntry place e entries).Pairwise fun a b => placeBefore a.1 b.1 = true := by
  induction entries with
  | nil => exact List.pairwise_singleton _ _
  | cons first rest ih =>
    obtain ⟨k, old⟩ := first
    obtain ⟨hfirst, hrest⟩ := List.pairwise_cons.mp h
    rw [insertEntry]
    split_ifs with hk hbefore
    · exact List.pairwise_cons.mpr ⟨hk ▸ hfirst, hrest⟩
    · refine List.pairwise_cons.mpr ⟨fun x hx => ?_, h⟩
      rcases List.mem_cons.mp hx with rfl | hx
      · exact hbefore
      · exact placeBefore_trans hbefore (hfirst x hx)
    · refine List.pairwise_cons.mpr ⟨fun x hx => ?_, ih hrest⟩
      rcases mem_insertEntry hx with rfl | hx
      · exact placeBefore_total (Ne.symm hk) (Bool.eq_false_iff.mpr hbefore)
      · exact hfirst x hx

theorem ordered_put {t : FileTree} (h : t.Ordered) (place : Place) (e : Entry) :
    (t.put place e).Ordered :=
  pairwise_insertEntry place e h

theorem ordered_erase {t : FileTree} (h : t.Ordered) (place : Place) : (t.erase place).Ordered :=
  h.sublist List.filter_sublist

/-! What a place holds after something was taken away. -/

private theorem findEntry_filter (place other : Place) (entries : List (Place × Entry)) :
    findEntry other (entries.filter fun x => !decide (x.1 = place)) =
      if other = place then none else findEntry other entries := by
  induction entries with
  | nil => simp [findEntry]
  | cons first rest ih =>
    obtain ⟨k, e⟩ := first
    by_cases hk : k = place
    · subst hk
      by_cases ho : other = k
      · simpa [ho] using ih
      · simpa [findEntry, ho, Ne.symm ho] using ih
    · by_cases ho : other = place
      · subst ho
        simpa [findEntry, hk] using ih
      · simp only [ho, if_false] at ih ⊢
        simp [hk, findEntry, ih]

theorem lookup_erase_self {t : FileTree} {place : Place} (h : isSurrounding place = false) :
    (t.erase place).lookup place = none := by
  simp [lookup, h, erase, findEntry_filter]

theorem lookup_erase_of_ne (t : FileTree) {place other : Place} (hne : other ≠ place) :
    (t.erase place).lookup other = t.lookup other := by
  simp [lookup, erase, findEntry_filter, hne]

theorem keepsDirectories_erase {t : FileTree} {place : Place}
    (h : t.lookup place ≠ some .directory) : KeepsDirectories t (t.erase place) := by
  intro other hother
  have hne : other ≠ place := fun heq => h (heq ▸ hother)
  rw [lookup_erase_of_ne t hne]
  exact hother

/-! The names in a directory. -/

/-- Only three names are found outside the tree. -/
theorem not_surrounding_child {name : String} (hdots : name ≠ "..") (hroot : name ≠ "/")
    (htemporary : name ≠ "tmp") (place : Place) : isSurrounding (place ++ [name]) = false := by
  have htop : place ++ [name] ≠ ["/"] := by
    intro heq
    exact hroot (by simpa using congrArg List.getLast? heq)
  have htmp : place ++ [name] ≠ ["/", "tmp"] := by
    intro heq
    exact htemporary (by simpa using congrArg List.getLast? heq)
  simp [isSurrounding, hdots, htop, htmp]

private theorem findEntry_ne_none_iff {place : Place} {entries : List (Place × Entry)} :
    findEntry place entries ≠ none ↔ ∃ e, (place, e) ∈ entries := by
  induction entries with
  | nil => simp [findEntry]
  | cons first rest ih =>
    obtain ⟨k, old⟩ := first
    by_cases hk : k = place
    · simp [findEntry, hk]
    · simp [findEntry, hk, ih, Ne.symm hk]

private theorem drop_eq_singleton {place k : Place} {name : String}
    (hdrop : k.drop place.length = [name]) (htake : k.take place.length = place) :
    k = place ++ [name] := by
  rw [← List.take_append_drop place.length k, hdrop, htake]

theorem mem_names {t : FileTree} {place : Place} {name : String} :
    name ∈ t.names place ↔ ∃ e, (place ++ [name], e) ∈ t.entries := by
  rw [names, List.mem_filterMap]
  constructor
  · rintro ⟨⟨k, e⟩, hmem, hname⟩
    dsimp only at hname
    split at hname
    · rename_i n hdrop
      split_ifs at hname with htake
      obtain rfl : n = name := by simpa using hname
      exact ⟨e, drop_eq_singleton hdrop htake ▸ hmem⟩
    · cases hname
  · rintro ⟨e, hmem⟩
    exact ⟨_, hmem, by simp⟩

theorem mem_names_iff {t : FileTree} {place : Place} {name : String}
    (hs : isSurrounding (place ++ [name]) = false) :
    name ∈ t.names place ↔ t.lookup (place ++ [name]) ≠ none := by
  rw [lookup, hs, if_neg Bool.false_ne_true, findEntry_ne_none_iff, mem_names]

theorem nodup_names {t : FileTree} (h : t.Ordered) (place : Place) : (t.names place).Nodup := by
  rw [names, List.Nodup, List.pairwise_filterMap]
  refine h.imp ?_
  rintro ⟨k, e⟩ ⟨k', e'⟩ hbefore name hname name' hname' rfl
  dsimp only at hname hname'
  split at hname
  · split at hname'
    · rename_i n hdrop _ n' hdrop'
      split_ifs at hname hname' with htake htake'
      obtain rfl : n = n' := (Option.some.inj hname).trans (Option.some.inj hname').symm
      have hk : k = k' :=
        (drop_eq_singleton hdrop htake).trans (drop_eq_singleton hdrop' htake').symm
      simp [hk, placeBefore_irrefl] at hbefore
    · cases hname'
  · cases hname

end FileTree
end SuiteTidy
