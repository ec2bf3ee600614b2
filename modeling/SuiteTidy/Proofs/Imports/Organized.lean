import SuiteTidy.Imports.Organized
import SuiteTidy.Proofs.Order.Stable
import SuiteTidy.Proofs.Suite.RoundTrip
import Mathlib.Data.List.Perm.Lattice
import Mathlib.Data.String.Basic

/-!
Import statements in groups. The group of a statement depends on the statement alone and sorting is
stable, so that the four groups hold every statement once, and putting them together and sorting
them into groups again changes nothing. Main statement: that, and that the block of all groups has
the statements as its lines.
-/

set_option autoImplicit false
set_option relaxedAutoImplicit false

namespace SuiteTidy

open SuiteTidy.Text

def isBlankLine (line : String) : Bool := line.toList.all isBlank

def SingleLine (s : String) : Prop := '\n' ∉ s.toList ∧ isBlankLine s = false

instance : DecidablePred SingleLine := fun s =>
  inferInstanceAs (Decidable ('\n' ∉ s.toList ∧ isBlankLine s = false))

namespace OrganizedImports

def statements (o : OrganizedImports) : List String :=
  o.external ++ o.internal ++ o.types ++ o.testTools

def group (o : OrganizedImports) : Suite.ImportGroup → List String
  | .external => o.external
  | .internal => o.internal
  | .types => o.types
  | .testTools => o.testTools

end OrganizedImports

namespace ImportList

section Sorting

variable (statements : List String)

private theorem sorted_perm : (sorted statements).Perm statements := List.mergeSort_perm _ _

private theorem pairwise_sorted : (sorted statements).Pairwise fun a b => lowered a ≤ lowered b :=
  Order.pairwise_mergeSort_key lowered statements

private theorem filter_sorted (key : String) :
    (sorted statements).filter (lowered · = key) = statements.filter (lowered · = key) :=
  Order.filter_mergeSort_key lowered statements key

private theorem sorted_sorted : sorted (sorted statements) = sorted statements :=
  Order.mergeSort_mergeSort_key lowered statements

end Sorting

private theorem group_organize (statements : List String) (g : Suite.ImportGroup) :
    (organize statements).group g = inGroup g statements := by
  cases g <;> rfl

private theorem groupOf_of_mem_inGroup {statements : List String} {g : Suite.ImportGroup}
    {s : String} (h : s ∈ inGroup g statements) : groupOf s = g := by
  have hmem := (sorted_perm _).mem_iff.mp h
  simpa using (List.mem_filter.mp hmem).2

private theorem filter_inGroup (statements : List String) (g g' : Suite.ImportGroup) :
    (inGroup g' statements).filter (fun s => groupOf s == g) =
      if g' = g then inGroup g statements else [] := by
  split_ifs with hsame
  · subst hsame
    rw [List.filter_eq_self]
    intro s hs
    simpa using groupOf_of_mem_inGroup hs
  · rw [List.filter_eq_nil_iff]
    intro s hs
    simpa [groupOf_of_mem_inGroup hs] using hsame

private theorem statements_organize_perm (statements : List String) :
    (organize statements).statements.Perm statements := by
  rw [List.perm_iff_count]
  intro s
  have hcount :
      ∀ g, (inGroup g statements).count s = if groupOf s = g then statements.count s else 0 := by
    intro g
    rw [inGroup, (sorted_perm _).count_eq]
    split_ifs with hgroup
    · exact List.count_filter (by simpa using hgroup)
    · rw [List.count_eq_zero, List.mem_filter]
      simpa using fun _ => hgroup
  simp only [OrganizedImports.statements, organize, List.count_append, hcount]
  cases groupOf s <;> simp

private theorem inGroup_statements_organize (statements : List String) (g : Suite.ImportGroup) :
    inGroup g (organize statements).statements = inGroup g statements := by
  have hparts : (organize statements).statements.filter (fun s => groupOf s == g) =
      inGroup g statements := by
    simp only [OrganizedImports.statements, organize, List.filter_append, filter_inGroup]
    cases g <;> simp
  rw [inGroup, hparts, inGroup, sorted_sorted]

end ImportList

/-! The block of lines. -/

private theorem filter_linesOf_sections (sections : List String) :
    (linesOf ("\n\n".intercalate sections)).filter (!isBlankLine ·) =
      sections.flatMap fun s => (linesOf s).filter (!isBlankLine ·) := by
  have hempty : linesOf "" = [""] := by decide
  by_cases hne : sections = []
  · subst hne
    rw [String.intercalate_nil, hempty]
    rfl
  · have hended : linesOf ("\n\n".intercalate sections) ++ [""] =
        sections.flatMap fun s => linesOf s ++ [""] := by
      rw [← Suite.linesOf_sections hne, ← hempty, ← Suite.linesOf_append_newline,
        String.append_empty]
    have hblank : [""].filter (!isBlankLine ·) = [] := by decide
    have hlines := congrArg (List.filter (!isBlankLine ·)) hended
    simpa only [List.filter_append, List.filter_flatMap, hblank, List.append_nil] using hlines

private theorem OrganizedImports.linesOf_block {o : OrganizedImports}
    (h : ∀ s ∈ o.statements, SingleLine s) :
    (linesOf o.block).filter (!isBlankLine ·) =
      o.external ++ o.types ++ o.internal ++ o.testTools := by
  have hgroup : ∀ g ∈ [o.external, o.types, o.internal, o.testTools].filter (!·.isEmpty),
      (linesOf (unlines g)).filter (!isBlankLine ·) = g := by
    intro g hg
    obtain ⟨hmem, hne⟩ := List.mem_filter.mp hg
    have hlines : ∀ s ∈ g, SingleLine s := by
      intro s hs
      refine h s ?_
      simp only [List.mem_cons, List.not_mem_nil, or_false] at hmem
      simp only [OrganizedImports.statements, List.mem_append]
      rcases hmem with rfl | rfl | rfl | rfl
      · exact .inl (.inl (.inl hs))
      · exact .inl (.inr hs)
      · exact .inl (.inl (.inr hs))
      · exact .inr hs
    rw [Suite.linesOf_unlines (by simpa using hne) fun s hs => (hlines s hs).1, List.filter_eq_self]
    intro s hs
    simp [(hlines s hs).2]
  rw [OrganizedImports.block, filter_linesOf_sections, List.flatMap_map, List.flatMap_congr hgroup,
    List.flatMap_id', List.flatten_filter_not_isEmpty]
  simp

namespace ImportList

theorem organize_keeps (statements : List String) :
    (organize statements).statements.Perm statements ∧
      (∀ g, ((organize statements).group g).Pairwise (fun a b => lowered a ≤ lowered b) ∧
        ∀ key, ((organize statements).group g).filter (lowered · = key) =
          statements.filter fun s => groupOf s = g ∧ lowered s = key) ∧
      organize (organize statements).statements = organize statements ∧
      ((∀ s ∈ statements, SingleLine s) →
        (linesOf (organize statements).block).filter (!isBlankLine ·) =
          (organize statements).external ++ (organize statements).types ++
            (organize statements).internal ++ (organize statements).testTools) := by
  have hperm := statements_organize_perm statements
  refine ⟨hperm, fun g => ⟨?_, fun key => ?_⟩, ?_, fun hlines => ?_⟩
  · rw [group_organize]
    exact pairwise_sorted _
  · rw [group_organize, inGroup, filter_sorted, List.filter_filter]
    refine List.filter_congr fun s _ => ?_
    simp [Bool.and_comm, beq_eq_decide]
  · rw [organize]
    simp only [inGroup_statements_organize]
    rfl
  · exact OrganizedImports.linesOf_block fun s hs => hlines s (hperm.mem_iff.mp hs)

def mixed : List String :=
  ["import b from './B';", "import B from './b';", "import stub from './stub';",
    "import react from 'react';", "import \x7b ReactType \x7d from 'react';",
    "import b from './B';", "import a from './a';"]

theorem organize_keeps_mixed :
    (∀ s ∈ mixed, SingleLine s) ∧
      (linesOf (organize mixed).block).filter (!isBlankLine ·) =
        (organize mixed).external ++ (organize mixed).types ++ (organize mixed).internal ++
          (organize mixed).testTools := by
  have hlines : ∀ s ∈ mixed, SingleLine s := by decide
  exact ⟨hlines, (organize_keeps mixed).2.2.2 hlines⟩

end ImportList
end SuiteTidy
