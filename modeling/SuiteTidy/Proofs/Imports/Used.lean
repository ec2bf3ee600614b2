import SuiteTidy.Proofs.Imports.Statement

/-!
Import statements that are left out because nothing uses them. A statement is kept if a text that is
read from it occurs in the content, and these texts need not be the names that it binds. Main
statement: a statement is kept wherever one of its names is used if and only if each of its names
holds one of the texts that are read.
-/

set_option autoImplicit false
set_option relaxedAutoImplicit false

namespace SuiteTidy.ImportList

open SuiteTidy.Text

/-- Statements that stay as long as one of their names occurs in the content. -/
def KeptWhereUsed (statements : List ImportStatement) : Prop :=
  ∀ (content : String), ∀ s ∈ statements, (∃ b ∈ s.bindings, b.localName <:+: content.toList) →
    s.text ∈ used (statements.map ImportStatement.text) content

/-- Clauses of which every name holds one that is read. -/
def ImportClause.Shows : ImportClause → Prop
  | single name => ∃ c ∈ name.val.head?, isWord c = true
  | listed first others =>
      ∀ x ∈ first :: others, ∃ y ∈ first :: others, y.exported.val <:+: x.localName.val
  | both name _ _ first others =>
      (∃ y ∈ first :: others, y.exported.val <:+: name.val) ∧
        ∀ x ∈ first :: others, ∃ y ∈ first :: others, y.exported.val <:+: x.localName.val
  | whole _ => False

private theorem mem_used_iff {s : ImportStatement} {statements : List String} {content : String} :
    s.text ∈ used statements content ↔
      s.text ∈ statements ∧ ∃ r ∈ s.reads, r <:+: content.toList := by
  rw [used, List.mem_filter, s.names_text, List.any_map, List.any_eq_true]
  simp [Suite.hasText_iff]

private theorem keptWhereUsed_iff (statements : List ImportStatement) :
    KeptWhereUsed statements ↔
      ∀ s ∈ statements, ∀ b ∈ s.bindings, ∃ r ∈ s.reads, r <:+: b.localName := by
  constructor
  · -- The name itself can be all the content.
    intro h s hs b hb
    have hused := h (String.ofList b.localName) s hs ⟨b, hb, by rw [String.toList_ofList]⟩
    simpa using (mem_used_iff.mp hused).2
  · rintro h content s hs ⟨b, hb, hoccurs⟩
    obtain ⟨r, hr, hinside⟩ := h s hs b hb
    exact mem_used_iff.mpr ⟨List.mem_map_of_mem hs, r, hr, hinside.trans hoccurs⟩

private theorem forall_bindings_iff_shows {s : ImportStatement} (hsource : '\x7b' ∉ s.source.val) :
    (∀ b ∈ s.bindings, ∃ r ∈ s.reads, r <:+: b.localName) ↔ s.clause.Shows := by
  have hnone : braced? s.source.val = none := braced?_eq_none hsource
  rw [ImportStatement.bindings, ImportStatement.reads]
  cases hclause : s.clause with
  | single name =>
    obtain ⟨c, cs, hname⟩ := List.exists_cons_of_ne_nil name.property.1
    have hpart : name.val.takeWhile isWord <:+: name.val := (List.takeWhile_prefix isWord).isInfix
    by_cases hc : isWord c = true
    · simp only [ImportStatement.reads.inBraces, hnone, ImportClause.Shows,
        List.forall_mem_singleton]
      refine iff_of_true ⟨_, ?_, hpart⟩ ⟨c, by simp [hname], hc⟩
      simp [hname, hc]
    · simp [ImportStatement.reads.inBraces, hnone, ImportClause.Shows, hname, hc]
  | listed first others => simp [ImportClause.Shows, Specifier.binding]
  | both name before after first others => simp [ImportClause.Shows, Specifier.binding]
  | whole name => simp [ImportStatement.reads.inBraces, hnone, ImportClause.Shows]

/-- What is left is in order, and all that is used is left just where each name that is bound holds
a text that is read. The clause decides that if the source holds no brace. -/
theorem used_keeps_iff (statements : List ImportStatement) :
    (∀ content, (used (statements.map ImportStatement.text) content).Sublist
        (statements.map ImportStatement.text)) ∧
      (KeptWhereUsed statements ↔
        ∀ s ∈ statements, ∀ b ∈ s.bindings, ∃ r ∈ s.reads, r <:+: b.localName) ∧
      ((∀ s ∈ statements, '\x7b' ∉ s.source.val) →
        (KeptWhereUsed statements ↔ ∀ s ∈ statements, s.clause.Shows)) := by
  refine ⟨fun content => List.filter_sublist, keptWhereUsed_iff statements, fun hsources => ?_⟩
  rw [keptWhereUsed_iff]
  exact forall₂_congr fun s hs => forall_bindings_iff_shows (hsources s hs)

end SuiteTidy.ImportList
