import SuiteTidy.Proofs.Imports.Reading
import SuiteTidy.Proofs.Order.Stable
import Mathlib.Data.String.Basic

/-!
Merging import statements with one source. What has been collected after some statements are their
sources, in the order in which they appear, each with the names from it, and a further statement
adds to that. Main statement: merging plain statements gives one statement for each source with all
names from it in order, and merging the result again changes nothing.
-/

set_option autoImplicit false
set_option relaxedAutoImplicit false

namespace SuiteTidy.ImportList

/-! Collecting names. -/

section Adding

variable {origin : String} {more : List String} {found : List (String × List String)}

private theorem map_fst_addNames :
    (addNames origin more found).map Prod.fst =
      if origin ∈ found.map Prod.fst then found.map Prod.fst
      else found.map Prod.fst ++ [origin] := by
  induction found with
  | nil => rfl
  | cons entry found ih =>
    rw [addNames]
    by_cases hsame : entry.1 = origin
    · simp [hsame]
    · rw [if_neg hsame, List.map_cons, ih, List.map_cons]
      simp only [List.mem_cons, Ne.symm hsame, false_or]
      split_ifs <;> rfl

private theorem mem_addNames {entry : String × List String} (hnodup : (found.map Prod.fst).Nodup)
    (h : entry ∈ addNames origin more found) :
    (entry ∈ found ∧ entry.1 ≠ origin) ∨
      ∃ old, entry = (origin, (old ++ more).eraseDups) ∧
        ((origin, old) ∈ found ∨ (old = [] ∧ origin ∉ found.map Prod.fst)) := by
  induction found with
  | nil =>
    obtain rfl := List.mem_singleton.mp h
    exact .inr ⟨[], rfl, .inr ⟨rfl, List.not_mem_nil⟩⟩
  | cons first found ih =>
    rw [List.map_cons, List.nodup_cons] at hnodup
    rw [addNames] at h
    by_cases hsame : first.1 = origin
    · rw [if_pos hsame] at h
      rcases List.mem_cons.mp h with rfl | hlater
      · refine .inr ⟨first.2, by rw [hsame], .inl ?_⟩
        rw [← hsame]
        exact List.mem_cons_self
      · refine .inl ⟨List.mem_cons_of_mem first hlater, fun hentry => hnodup.1 ?_⟩
        rw [hsame, ← hentry]
        exact List.mem_map_of_mem hlater
    · rw [if_neg hsame] at h
      rcases List.mem_cons.mp h with rfl | hlater
      · exact .inl ⟨List.mem_cons_self, hsame⟩
      · rcases ih hnodup.2 hlater with ⟨hmem, hne⟩ | ⟨old, rfl, hold | ⟨hnone, hnew⟩⟩
        · exact .inl ⟨List.mem_cons_of_mem first hmem, hne⟩
        · exact .inr ⟨old, rfl, .inl (List.mem_cons_of_mem first hold)⟩
        · refine .inr ⟨old, rfl, .inr ⟨hnone, ?_⟩⟩
          rw [List.map_cons, List.mem_cons, not_or]
          exact ⟨Ne.symm hsame, hnew⟩

private theorem addNames_of_new (h : origin ∉ found.map Prod.fst) :
    addNames origin more found = found ++ [(origin, more.eraseDups)] := by
  induction found with
  | nil => rfl
  | cons first found ih =>
    rw [List.map_cons, List.mem_cons, not_or] at h
    rw [addNames, if_neg (Ne.symm h.1), ih h.2, List.cons_append]

end Adding

structure Collects (statements : List String) (found : List (String × List String)) : Prop where
  sources : found.map Prod.fst = (statements.map source).eraseDups
  once : ∀ entry ∈ found, entry.2.Nodup
  united : ∀ entry ∈ found, ∀ n,
    n ∈ entry.2 ↔ ∃ s ∈ statements, source s = entry.1 ∧ n ∈ names s

theorem Collects.nodup {statements : List String} {found : List (String × List String)}
    (h : Collects statements found) : (found.map Prod.fst).Nodup := by
  rw [h.sources]
  exact Order.nodup_eraseDups _

private theorem Collects.concat {statements : List String} {found : List (String × List String)}
    (h : Collects statements found) (s : String) :
    Collects (statements ++ [s]) (addNames (source s) (names s) found) where
  sources := by
    rw [map_fst_addNames, h.sources, List.map_append, List.map_singleton, Order.eraseDups_concat]
    exact if_congr List.mem_eraseDups rfl rfl
  once := by
    intro entry hentry
    rcases mem_addNames h.nodup hentry with ⟨hmem, -⟩ | ⟨old, rfl, -⟩
    · exact h.once entry hmem
    · exact Order.nodup_eraseDups _
  united := by
    intro entry hentry n
    rcases mem_addNames h.nodup hentry with ⟨hmem, hne⟩ | ⟨old, rfl, hold⟩
    · rw [h.united entry hmem]
      simp [or_and_right, exists_or, Ne.symm hne]
    · have hbefore : n ∈ old ↔ ∃ t ∈ statements, source t = source s ∧ n ∈ names t := by
        rcases hold with hmem | ⟨rfl, hnew⟩
        · exact h.united _ hmem n
        · rw [h.sources, List.mem_eraseDups] at hnew
          constructor
          · intro hnone
            cases hnone
          · rintro ⟨t, ht, hsource, -⟩
            exact absurd (hsource ▸ List.mem_map_of_mem ht) hnew
      rw [List.mem_eraseDups, List.mem_append, hbefore]
      simp [or_and_right, exists_or]

theorem collects_bySource (statements : List String) :
    Collects statements (bySource statements) := by
  have hrun : ∀ (rest done : List String) (found : List (String × List String)),
      Collects done found → Collects (done ++ rest)
        (rest.foldl (fun found s => addNames (source s) (names s) found) found) := by
    intro rest
    induction rest with
    | nil => simp
    | cons s rest ih =>
      intro done found h
      have hnext := ih (done ++ [s]) _ (h.concat s)
      rwa [List.append_assoc] at hnext
  exact hrun statements [] [] ⟨rfl, by simp, by simp⟩

private theorem bySource_of_nodup {statements : List String} (h : (statements.map source).Nodup) :
    bySource statements = statements.map fun s => (source s, (names s).eraseDups) := by
  have hrun : ∀ (rest done : List String), ((done ++ rest).map source).Nodup →
      rest.foldl (fun found s => addNames (source s) (names s) found)
        (done.map fun s => (source s, (names s).eraseDups)) =
      (done ++ rest).map fun s => (source s, (names s).eraseDups) := by
    intro rest
    induction rest with
    | nil => simp
    | cons s rest ih =>
      intro done hnodup
      have hnew : source s ∉ (done.map fun s => (source s, (names s).eraseDups)).map Prod.fst := by
        rw [List.map_append, List.map_cons, List.nodup_append] at hnodup
        intro hmem
        simp only [List.map_map, List.mem_map] at hmem
        obtain ⟨t, ht, hsame⟩ := hmem
        exact hnodup.2.2 (source t) (List.mem_map_of_mem ht) (source s) List.mem_cons_self hsame
      have hnext := ih (done ++ [s]) (by simpa using hnodup)
      rw [List.foldl_cons, addNames_of_new hnew]
      simpa using hnext
  exact hrun statements [] h

/-! The merged statements. -/

def ordered (ns : List String) : List String := ns.mergeSort fun a b => a ≤ b

theorem ordered_perm (ns : List String) : (ordered ns).Perm ns := List.mergeSort_perm _ _

private theorem ordered_ordered (ns : List String) : ordered (ordered ns) = ordered ns :=
  Order.mergeSort_mergeSort_key id ns

private theorem pairwise_lt_ordered {ns : List String} (h : ns.Nodup) :
    (ordered ns).Pairwise (· < ·) := by
  have hsorted : (ordered ns).Pairwise (· ≤ ·) := Order.pairwise_mergeSort_key id ns
  refine (hsorted.and ((ordered_perm ns).nodup_iff.mpr h)).imp fun hboth => ?_
  exact lt_of_le_of_ne hboth.1 hboth.2

theorem statement_of_length_ne_one {ns : List String} (h : ns.length ≠ 1) (origin : String) :
    statement origin ns =
      "import \x7b " ++ ", ".intercalate (ordered ns) ++ " \x7d" ++
        (" from '" ++ origin ++ "';") := by
  match ns with
  | [] => rfl
  | [n] => exact absurd rfl h
  | _ :: _ :: _ => rfl

private theorem statement_ordered (origin : String) (ns : List String) :
    statement origin (ordered ns) = statement origin ns := by
  by_cases hone : ns.length = 1
  · obtain ⟨n, rfl⟩ := List.length_eq_one_iff.mp hone
    rw [ordered, List.mergeSort_singleton]
  · have hordered : (ordered ns).length ≠ 1 := by rwa [(ordered_perm ns).length_eq]
    rw [statement_of_length_ne_one hordered, statement_of_length_ne_one hone, ordered_ordered]

private theorem exists_form_of_statement (origin : ImportSource) {ns : List String} (hne : ns ≠ [])
    (hns : ∀ n ∈ ns, n ≠ "" ∧ ∀ c ∈ n.toList, Text.isWord c = true) :
    ∃ form : ImportForm,
      statement origin ns = form.text ∧ form.source = origin ∧ form.names = ordered ns := by
  by_cases hone : ns.length = 1
  · obtain ⟨n, rfl⟩ := List.length_eq_one_iff.mp hone
    refine ⟨.bare ⟨n, hns n List.mem_cons_self⟩ origin, ?_, rfl, ?_⟩
    · simp only [statement, ImportForm.text, ImportForm.clause, ImportForm.source,
        String.append_assoc]
    · rw [ordered, List.mergeSort_singleton]
      rfl
  · have hwords : ∀ n ∈ ordered ns, n ≠ "" ∧ ∀ c ∈ n.toList, Text.isWord c = true := fun n hn =>
      hns n ((ordered_perm ns).mem_iff.mp hn)
    have hsome : ordered ns ≠ [] := by
      intro hnil
      have hperm := ordered_perm ns
      rw [hnil] at hperm
      exact hne hperm.nil_eq.symm
    obtain ⟨n, rest, hrest⟩ := List.exists_cons_of_ne_nil hsome
    rw [hrest, List.forall_mem_cons] at hwords
    let others : List ImportName := rest.attachWith _ hwords.2
    have hnames : (ImportForm.braced ⟨n, hwords.1⟩ others origin).names = ordered ns := by
      rw [hrest, ImportForm.names, List.map_cons, List.attachWith_map_subtype_val]
    refine ⟨.braced ⟨n, hwords.1⟩ others origin, ?_, rfl, hnames⟩
    rw [statement_of_length_ne_one hone, ← hnames]
    simp only [ImportForm.text, ImportForm.clause, ImportForm.source, String.append_assoc]

section Forms

variable {forms : List ImportForm}

private theorem map_source_text :
    (forms.map ImportForm.text).map source = forms.map ImportForm.source := by
  simp [Function.comp_def, source_text]

private theorem mem_entry_iff {entry : String × List String}
    (h : entry ∈ bySource (forms.map ImportForm.text)) (n : String) :
    n ∈ entry.2 ↔ ∃ form ∈ forms, form.source = entry.1 ∧ n ∈ form.names := by
  rw [(collects_bySource _).united entry h]
  simp [source_text, names_text]

private theorem reads_statement {entry : String × List String}
    (h : entry ∈ bySource (forms.map ImportForm.text)) :
    source (statement entry.1 entry.2) = entry.1 ∧
      names (statement entry.1 entry.2) = ordered entry.2 := by
  obtain ⟨form, hform, hsource⟩ : ∃ form ∈ forms, form.source = entry.1 := by
    have hkey := List.mem_map_of_mem (f := Prod.fst) h
    rwa [(collects_bySource _).sources, map_source_text, List.mem_eraseDups, List.mem_map] at hkey
  have hne : entry.2 ≠ [] := by
    obtain ⟨n, rest, hnames⟩ := List.exists_cons_of_ne_nil form.names_ne_nil
    have hmem : n ∈ entry.2 :=
      (mem_entry_iff h n).mpr ⟨form, hform, hsource, hnames ▸ List.mem_cons_self⟩
    exact List.ne_nil_of_mem hmem
  have hwords : ∀ n ∈ entry.2, n ≠ "" ∧ ∀ c ∈ n.toList, Text.isWord c = true := by
    intro n hn
    obtain ⟨other, -, -, hmem⟩ := (mem_entry_iff h n).mp hn
    exact ImportForm.isWord_of_mem_names hmem
  obtain ⟨written, hwritten, hown, hnames⟩ :=
    exists_form_of_statement ⟨form.source, form.source_spec⟩ hne hwords
  rw [← hsource, hwritten, source_text, names_text]
  exact ⟨hown, hnames⟩

end Forms

theorem merged_eq_map (statements : List String) :
    merged statements = (bySource statements).map fun entry => statement entry.1 entry.2 := rfl

/-- Merging gives one statement for each source, in the order in which the sources appear, from
which the source and the names from it are read, in order and each once. -/
theorem merged_unites (forms : List ImportForm) :
    (merged (forms.map ImportForm.text)).map source = (forms.map ImportForm.source).eraseDups ∧
      (∀ s ∈ merged (forms.map ImportForm.text), (names s).Pairwise (· < ·) ∧
        ∀ n, n ∈ names s ↔ ∃ form ∈ forms, form.source = source s ∧ n ∈ form.names) ∧
      merged (merged (forms.map ImportForm.text)) = merged (forms.map ImportForm.text) := by
  have hcollects := collects_bySource (forms.map ImportForm.text)
  have hsources : (merged (forms.map ImportForm.text)).map source =
      (forms.map ImportForm.source).eraseDups := by
    rw [← map_source_text, ← hcollects.sources, merged_eq_map, List.map_map]
    exact List.map_congr_left fun entry hentry => (reads_statement hentry).1
  have hnames : ∀ s ∈ merged (forms.map ImportForm.text),
      ∃ entry ∈ bySource (forms.map ImportForm.text),
      s = statement entry.1 entry.2 ∧ source s = entry.1 ∧ names s = ordered entry.2 := by
    intro s hs
    rw [merged_eq_map] at hs
    obtain ⟨entry, hentry, rfl⟩ := List.mem_map.mp hs
    exact ⟨entry, hentry, rfl, reads_statement hentry⟩
  refine ⟨hsources, ?_, ?_⟩
  · intro s hs
    obtain ⟨entry, hentry, -, hsource, hnames⟩ := hnames s hs
    rw [hsource, hnames]
    refine ⟨pairwise_lt_ordered (hcollects.once entry hentry), fun n => ?_⟩
    rw [(ordered_perm entry.2).mem_iff, mem_entry_iff hentry]
  · have hdistinct : ((merged (forms.map ImportForm.text)).map source).Nodup := by
      rw [hsources]
      exact Order.nodup_eraseDups _
    have hsame : ∀ s ∈ merged (forms.map ImportForm.text),
        statement (source s) (names s).eraseDups = s := by
      intro s hs
      obtain ⟨entry, hentry, hs, hsource, hnames⟩ := hnames s hs
      have honce : (ordered entry.2).Nodup :=
        (ordered_perm entry.2).nodup_iff.mpr (hcollects.once entry hentry)
      rw [hsource, hnames, Order.eraseDups_of_nodup honce, statement_ordered, hs]
    rw [merged_eq_map (merged _), bySource_of_nodup hdistinct, List.map_map]
    exact (List.map_congr_left hsame).trans (List.map_id _)

end SuiteTidy.ImportList
