import SuiteTidy.Json.Store
import SuiteTidy.Proofs.Files.Tree
import SuiteTidy.Proofs.Json.RoundTrip
import SuiteTidy.Proofs.Order.Insertion
import SuiteTidy.Proofs.Workspace

/-!
Whole documents. Sorting the keys of a value changes nothing but the order of fields, and a document
that was saved is loaded again. Main statement: a plain value comes back from each of its documents,
on one line or on many, sorted or not, kept in a text or in a file.
-/

set_option autoImplicit false
set_option relaxedAutoImplicit false

namespace SuiteTidy.Json

/-! Values that differ in the order of fields. -/

mutual
/-- Two values are the same but for the order of fields in dictionaries, at any depth. -/
inductive Rearranged : Datum → Datum → Prop where
  | same (d : Datum) : Rearranged d d
  | list {xs ys : List Datum} (h : RearrangedAll xs ys) : Rearranged (.list xs) (.list ys)
  | dict {fs gs hs : List (Datum × Datum)} (h : RearrangedFields fs gs) (hperm : hs.Perm gs) :
    Rearranged (.dict fs) (.dict hs)

inductive RearrangedAll : List Datum → List Datum → Prop where
  | nil : RearrangedAll [] []
  | cons {x y : Datum} {xs ys : List Datum} (h : Rearranged x y) (hrest : RearrangedAll xs ys) :
    RearrangedAll (x :: xs) (y :: ys)

inductive RearrangedFields : List (Datum × Datum) → List (Datum × Datum) → Prop where
  | nil : RearrangedFields [] []
  | cons {k v w : Datum} {fs gs : List (Datum × Datum)} (h : Rearranged v w)
    (hrest : RearrangedFields fs gs) : RearrangedFields ((k, v) :: fs) ((k, w) :: gs)
end

private theorem plainFields_iff {fs : List (Datum × Datum)} :
    PlainFields fs ↔ ∀ f ∈ fs, (∃ s, f.1 = .text s) ∧ Plain f.2 := by
  induction fs with
  | nil => simp [PlainFields]
  | cons f fs ih => simp [PlainFields, ih, and_assoc]

private theorem keyLess_isOk (a b : Datum × Datum) (ha : ∃ s, a.1 = .text s)
    (hb : ∃ s, b.1 = .text s) : ∃ r, keyLess a b = .ok r := by
  obtain ⟨s, hs⟩ := ha
  obtain ⟨t, ht⟩ := hb
  exact ⟨decide (s < t), by rw [keyLess, hs, ht]⟩

private theorem RearrangedFields.keys_eq {fs gs : List (Datum × Datum)}
    (h : RearrangedFields fs gs) : gs.map Prod.fst = fs.map Prod.fst := by
  cases h with
  | nil => rfl
  | cons _ hrest => rw [List.map_cons, List.map_cons, hrest.keys_eq]

mutual
private theorem sortKeys_plain : ∀ d : Datum, Plain d →
    ∃ d', sortKeys d = .ok d' ∧ Rearranged d d' ∧ Plain d'
  | .null, h => ⟨_, by simp only [sortKeys], .same _, h⟩
  | .bool b, h => ⟨_, by simp only [sortKeys], .same _, h⟩
  | .int n, h => ⟨_, by simp only [sortKeys], .same _, h⟩
  | .real x, h => ⟨_, by simp only [sortKeys], .same _, h⟩
  | .text s, h => ⟨_, by simp only [sortKeys], .same _, h⟩
  | .list xs, h => by
    rw [Plain] at h
    obtain ⟨ys, hys, hrearranged, hplain⟩ := sortKeysAll_plain xs h
    refine ⟨.list ys, ?_, .list hrearranged, by rwa [Plain]⟩
    simp only [sortKeys, hys, bind, Except.bind, pure, Except.pure]
  | .dict fs, h => by
    rw [Plain] at h
    obtain ⟨gs, hgs, hrearranged, hplain⟩ := sortKeysFields_plain fs h.1
    have hkeys : ∀ g ∈ gs, ∃ s, g.1 = .text s := fun g hg => (plainFields_iff.mp hplain g hg).1
    obtain ⟨hs, hsort, hperm⟩ := Order.sortM_perm keyLess_isOk hkeys
    refine ⟨.dict hs, ?_, .dict hrearranged hperm, ?_⟩
    · simp only [sortKeys, hgs, hsort, bind, Except.bind, pure, Except.pure]
    · have hnodup : (hs.map Prod.fst).Nodup := by
        rw [(hperm.map Prod.fst).nodup_iff, hrearranged.keys_eq]
        exact h.2
      rw [Plain]
      exact ⟨plainFields_iff.mpr fun f hf => plainFields_iff.mp hplain f (hperm.mem_iff.mp hf),
        hnodup⟩

private theorem sortKeysAll_plain : ∀ xs : List Datum, PlainAll xs →
    ∃ ys, sortKeysAll xs = .ok ys ∧ RearrangedAll xs ys ∧ PlainAll ys
  | [], h => ⟨[], by rw [sortKeysAll], .nil, h⟩
  | x :: xs, h => by
    rw [PlainAll] at h
    obtain ⟨y, hy, hfirst, hplain⟩ := sortKeys_plain x h.1
    obtain ⟨ys, hys, hrest, hplains⟩ := sortKeysAll_plain xs h.2
    refine ⟨y :: ys, ?_, .cons hfirst hrest, by rw [PlainAll]; exact ⟨hplain, hplains⟩⟩
    simp only [sortKeysAll, hy, hys, bind, Except.bind, pure, Except.pure]

private theorem sortKeysFields_plain : ∀ fs : List (Datum × Datum), PlainFields fs →
    ∃ gs, sortKeysFields fs = .ok gs ∧ RearrangedFields fs gs ∧ PlainFields gs
  | [], h => ⟨[], by rw [sortKeysFields], .nil, h⟩
  | (k, v) :: fs, h => by
    rw [PlainFields] at h
    obtain ⟨w, hw, hfirst, hplain⟩ := sortKeys_plain v h.2.1
    obtain ⟨gs, hgs, hrest, hplains⟩ := sortKeysFields_plain fs h.2.2
    refine ⟨(k, w) :: gs, ?_, .cons hfirst hrest, by rw [PlainFields]; exact ⟨h.1, hplain, hplains⟩⟩
    simp only [sortKeysFields, hw, hgs, bind, Except.bind, pure, Except.pure]
end

/-! Documents in texts. -/

private theorem isDocument_of_read {s : String} {d : Datum} (h : read s = .ok d) :
    isDocument s = .ok true := by
  rw [isDocument, h]

theorem text_of_render {layout : Layout} {d : Datum} {s : String}
    (h : render layout d = .done s) : text layout d = .ok s := by
  rw [text, h]
  rfl

/-! Documents in files. -/

private theorem normalNewlines_eq {cs : List Char} (h : '\r' ∉ cs) :
    Text.normalNewlines cs = cs := by
  induction cs with
  | nil => rfl
  | cons c cs ih =>
    simp only [List.mem_cons, not_or] at h
    have hc : c ≠ '\r' := Ne.symm h.1
    simp [Text.normalNewlines, hc, ih h.2]

theorem readText_of_readContent {t : FileTree} {p : Path} {s : String} (hs : '\r' ∉ s.toList)
    (h : t.readContent p = .ok (.bytes s.toUTF8)) : t.readText p = .ok s := by
  have hdecode : FileTree.decode (.bytes s.toUTF8) = .ok s := by
    have hutf8 : String.fromUTF8? s.toUTF8 = some s := dif_pos s.isValidUTF8
    rw [FileTree.decode, hutf8]
  simp only [FileTree.readText, FileTree.readExact, h, hdecode, normalNewlines_eq hs, bind,
    Except.bind, pure, Except.pure, String.ofList_toList]

private theorem readText_of_writeText {t t' : FileTree} {p : Path} {s : String}
    (hs : '\r' ∉ s.toList) (h : t.writeText p s = .ok t') : t'.readText p = .ok s :=
  readText_of_readContent hs (FileTree.readContent_of_writeContent h)

private theorem load_of_save {d : Datum} (hplain : Plain d) {p : Path} {w w' : Workspace}
    (h : save d p w = (.ok true, w')) : load p w' = (.ok d, w') := by
  obtain ⟨s, hs, hform⟩ := render_form Layout.standard_readable rfl hplain
  have hsaved := Work.eq_ok_of_orElse h (by decide)
  rw [hs] at hsaved
  obtain ⟨_, v, -, hsaved⟩ := Work.bind_eq_ok_iff.mp hsaved
  obtain ⟨_, v', hwrite, hsaved⟩ := Work.bind_eq_ok_iff.mp hsaved
  obtain rfl : v' = w' := (Prod.mk.inj hsaved).2
  obtain ⟨t, hwritten, rfl⟩ := Work.change_eq_ok hwrite
  have hread : t.readText p = .ok s := readText_of_writeText hform.return_not_mem hwritten
  have hexists : t.exists_ p = .ok true :=
    FileTree.exists_of_readContent (FileTree.readContent_of_writeContent hwritten)
  have hasked : Work.pathExists p { v with files := t } = (.ok true, _) := Work.ask_ok hexists
  have htext : Work.readText p { v with files := t } = (.ok s, _) := Work.ask_ok hread
  rw [load, Work.bind_ok hasked]
  refine Work.orElse_ok ?_ _
  rw [Work.bind_ok htext, read_form hform]
  rfl

/-- A value that comes back from its documents: from the readable one, from the sorted one but for
the order of fields, from the readable one with its space taken out, and from a file. -/
structure ComesBack (d : Datum) : Prop where
  readable : ∃ s, text .readable d = .ok s ∧ read s = .ok d ∧ isDocument s = .ok true
  sorted : ∃ s d', text .sorted d = .ok s ∧ read s = .ok d' ∧ Rearranged d d' ∧
    isDocument s = .ok true
  compact : ∃ s t, text .readable d = .ok s ∧ (read s >>= text .compact) = .ok t ∧ read t = .ok d ∧
    isDocument t = .ok true
  file : ∀ (p : Path) (w w' : Workspace), save d p w = (.ok true, w') → load p w' = (.ok d, w')

/-- Every plain value comes back from its documents. -/
theorem comesBack_of_plain {d : Datum} (h : Plain d) : ComesBack d := by
  obtain ⟨s, hs, hform⟩ := render_form Layout.standard_readable rfl h
  have hread : read s = .ok d := read_form hform
  refine ⟨⟨s, text_of_render hs, hread, isDocument_of_read hread⟩, ?_, ?_,
    fun p w w' hsaved => load_of_save h hsaved⟩
  · obtain ⟨d', hsort, hrearranged, hplain⟩ := sortKeys_plain d h
    obtain ⟨t, ht, hsorted⟩ := write_form Layout.standard_sorted d' 0 hplain
    have hrender : render .sorted d = .done t := by
      simpa [render, Layout.sorted, hsort] using ht
    have hreadSorted : read t = .ok d' := read_form hsorted
    exact ⟨t, d', text_of_render hrender, hreadSorted, hrearranged, isDocument_of_read hreadSorted⟩
  · obtain ⟨t, ht, hcompact⟩ := render_form Layout.standard_compact rfl h
    have hreadCompact : read t = .ok d := read_form hcompact
    refine ⟨s, t, text_of_render hs, ?_, hreadCompact, isDocument_of_read hreadCompact⟩
    rw [hread]
    exact text_of_render ht

/-- A dictionary with a list in it: a control character, a quote, a character with two code units,
a negative number, nothing, and an empty list and dictionary. -/
def mixedValue : Datum :=
  .dict [(.text "b\r\n", .list [.text "\"\x01😀", .int (-120), .null, .list []]),
    (.text "a", .dict [(.text "", .bool true), (.text "z", .dict [])])]

/-- The value comes back, and it can be saved to a file in a directory that is not there yet. -/
theorem comesBack_of_plain_mixed :
    ComesBack mixedValue ∧
      ∃ w', save mixedValue (.ofString "out/a.json") { now := ⟨0, none⟩ } = (.ok true, w') ∧
        load (.ofString "out/a.json") w' = (.ok mixedValue, w') := by
  have hdigits : (Nat.repr 120).length ≤ digitLimit := by decide
  have hplain : Plain mixedValue := by
    simpa [mixedValue, Plain, PlainAll, PlainFields, ShortInt] using hdigits
  have hback : ComesBack mixedValue := comesBack_of_plain hplain
  have hsave :
      ∃ w', save mixedValue (.ofString "out/a.json") { now := ⟨0, none⟩ } = (.ok true, w') :=
    ⟨_, rfl⟩
  obtain ⟨w', hsaved⟩ := hsave
  exact ⟨hback, w', hsaved, hback.file _ _ _ hsaved⟩

end SuiteTidy.Json
